import ChainTypings.Proofs.Spelling.Unboxing
import ChainTypings.Spelling.Alias

/-!
# Dropping parentheses

A round drops the parentheses around every piece of text that shows neither a comma nor another
parenthesis, and rounds follow until one changes nothing. On the text of a phrase a round is
`Phrase.once`: a tuple of one flat element gives way to its element. All rounds together are
`Phrase.bared`, which goes through the phrase from the inside (`flatten_print`).

Around anything else the parentheses stay: in well-bracketed text a comma or an opening parenthesis
comes before any closing one that the text does not open itself (`unclosed_append`).
-/

namespace ChainTypings.Spelling

open Text

/-! ## One piece -/

theorem oneElement_beginsWith : oneElement.BeginsWith '(' where
  first := by
    intro inWord d cs hd
    change oneElement? (d :: cs) = none
    unfold oneElement?
    split
    · next heq => exact absurd (List.cons.inj heq).1 hd
    · rfl
  anywhere _ _ := rfl

/-- One element loses its parentheses. -/
theorem oneElement_apply_element {element : List Char} (hne : element ≠ [])
    (h : element.all isElementChar = true) (rest : List Char) :
    oneElement.apply ('(' :: (element ++ ')' :: rest)) = element ++ oneElement.apply rest := by
  rw [List.all_eq_true] at h
  have hfind : oneElement.find? false ('(' :: (element ++ ')' :: rest)) = some (element, rest) := by
    change oneElement? ('(' :: (element ++ ')' :: rest)) = some (element, rest)
    have htake := takeWhile_append_cons (p := isElementChar) (c := ')') rfl element rest
    have hdrop := dropWhile_append_cons (p := isElementChar) (c := ')') rfl element rest
    rw [List.takeWhile_eq_self_iff.2 h] at htake
    rw [List.dropWhile_eq_nil_iff.2 h, List.nil_append] at hdrop
    simp only [oneElement?, htake, hdrop, List.isEmpty_eq_false_iff.2 hne]
    rfl
  rw [Rule.apply, Rule.applyFrom_of_some hfind]
  rfl

/-- A round that does not shorten the text leaves it as it is. -/
theorem oneElement_apply_eq_self {cs : List Char}
    (h : ¬(oneElement.apply cs).length < cs.length) : oneElement.apply cs = cs := by
  have key : ∀ inWord ds, (oneElement.applyFrom inWord ds).length < ds.length ∨
      oneElement.applyFrom inWord ds = ds := by
    intro inWord ds
    refine Rule.apply_cases (r := oneElement) (P := fun inWord ds =>
      (oneElement.applyFrom inWord ds).length < ds.length ∨ oneElement.applyFrom inWord ds = ds)
      ?nil ?replaced ?kept inWord ds
    case nil => exact fun inWord => .inr (Rule.applyFrom_nil _ _)
    case replaced =>
      intro inWord ds element rest hfind ih
      left
      have hrest : (oneElement.applyFrom false rest).length ≤ rest.length := by
        rcases ih with ih | ih
        · omega
        · rw [ih]
      rw [Rule.applyFrom_of_some hfind, (oneElement?_eq hfind).1]
      simp only [List.length_append, List.length_cons]
      omega
    case kept =>
      intro inWord c ds hfind ih
      rw [Rule.applyFrom_of_none hfind]
      exact ih.imp (by simp) (by simp)
  exact (key false cs).resolve_left h

/-- A comma or an opening parenthesis comes before any closing one. -/
def Unclosed (cs : List Char) : Prop := ∀ tail, cs.dropWhile isElementChar ≠ ')' :: tail

theorem unclosed_cons {c : Char} (hc : c ≠ ')') {cs : List Char}
    (h : isElementChar c = true → Unclosed cs) : Unclosed (c :: cs) := by
  intro tail
  rw [List.dropWhile_cons]
  split
  · next hflat => exact h hflat tail
  · intro he
    exact hc (List.cons.inj he).1

/-- Well-bracketed text closes no parenthesis that it did not open, so it is not what decides
unless it shows a comma or a parenthesis of its own. -/
theorem unclosed_append {outer : Char → Prop} {cs : List Char} (h : Bracket.Nested outer cs)
    {rest : List Char} (hr : cs.all isElementChar = true → Unclosed rest) :
    Unclosed (cs ++ rest) := by
  induction h generalizing rest with
  | nil => exact hr rfl
  | @plain outer c cs _ hc _ _ ih =>
    refine unclosed_cons ?_ fun hflat => ih fun hcs => hr (by rw [List.all_cons, hflat, hcs]; rfl)
    rintro rfl
    exact absurd hc (by decide)
  | @pair outer o k inside after hk _ _ ihi iha =>
    rw [List.cons_append, List.append_assoc, List.cons_append]
    obtain ⟨hcloser, -⟩ := Bracket.isCloser_of_closerOf? hk
    have ho : o ≠ ')' := by
      rintro rfl
      exact absurd (Bracket.isOpener_of_closerOf? hk) (by decide)
    -- a round bracket settles it; any other is passed with what it encloses
    refine unclosed_cons ho fun hopen => ihi fun hinside => unclosed_cons ?_ fun hclose =>
      iha fun hafter => hr ?_
    · rintro rfl
      rw [Bracket.eq_of_closerOf? (o := '(') rfl hk] at hopen
      exact absurd hopen (by decide)
    · simp [hopen, hinside, hclose, hafter]

theorem oneElement?_of_unclosed {inside : List Char} (h : Unclosed inside) :
    oneElement? ('(' :: inside) = none := by
  simp only [oneElement?]
  split
  · next tail heq => exact absurd heq (h tail)
  · rfl

/-! ## One round -/

namespace Phrase

/-- Whether the text of the phrase shows neither commas nor parentheses. -/
def isFlat (t : Phrase) : Bool := t.print.all isElementChar

/-- The element of a tuple that loses its parentheses: the only one, if it is flat. -/
def loneFlat? : List Phrase → Option Phrase
  | [t] => if t.isFlat then some t else none
  | _ => none

mutual

/-- The phrase after one round: flat elements lose their parentheses. -/
def once : Phrase → Phrase
  | name w => name w
  | tuple ts => (loneFlat? ts).getD (tuple (onceEach ts))
  | array t n => array (once t) n
  | slice t => slice (once t)
  | generic h ts => generic h (onceEach ts)

/-- Several phrases after one round. -/
def onceEach : List Phrase → List Phrase
  | [] => []
  | t :: ts => once t :: onceEach ts

end

mutual

/-- The phrase after all rounds: an element that has become flat loses its parentheses too. -/
def bared : Phrase → Phrase
  | name w => name w
  | tuple ts => (loneFlat? (baredEach ts)).getD (tuple (baredEach ts))
  | array t n => array (bared t) n
  | slice t => slice (bared t)
  | generic h ts => generic h (baredEach ts)

/-- Several phrases after all rounds. -/
def baredEach : List Phrase → List Phrase
  | [] => []
  | t :: ts => bared t :: baredEach ts

end

theorem all_isElementChar_chars (w : AsciiWord) : w.chars.all isElementChar = true := by
  rw [List.all_eq_true]
  intro c hc
  have hne : ∀ {d}, isWordChar d = false → c ≠ d := ne_of_isWordChar (w.isWordChar c hc)
  simp [isElementChar, hne (d := ',') rfl, hne (d := '(') rfl, hne (d := ')') rfl]

theorem isFlat_name (w : AsciiWord) : (name w).isFlat = true := all_isElementChar_chars w

theorem isFlat_tuple (ts : List Phrase) : (tuple ts).isFlat = false := rfl

theorem isFlat_array (t : Phrase) (n : Numeral) : (array t n).isFlat = t.isFlat := by
  have hn : n.digits.all isElementChar = true := all_isElementChar_chars n.word
  have hmark : isElementChar '[' = true ∧ isElementChar ';' = true ∧ isElementChar ']' = true :=
    ⟨rfl, rfl, rfl⟩
  simp only [isFlat, print, List.all_cons, List.all_append, List.all_nil, hn, hmark, Bool.true_and,
    Bool.and_true]

theorem isFlat_slice (t : Phrase) : (slice t).isFlat = t.isFlat := by
  have hmark : isElementChar '[' = true ∧ isElementChar ']' = true := ⟨rfl, rfl⟩
  simp only [isFlat, print, List.all_cons, List.all_append, List.all_nil, hmark, Bool.true_and,
    Bool.and_true]

theorem isFlat_generic (g : AsciiWord) (ts : List Phrase) :
    (generic g ts).isFlat = (joined ts).all isElementChar := by
  have hmark : isElementChar '<' = true ∧ isElementChar '>' = true := ⟨rfl, rfl⟩
  simp only [isFlat, print, joined, List.all_cons, List.all_append, List.all_nil,
    all_isElementChar_chars g, hmark, Bool.true_and, Bool.and_true]

theorem onceEach_eq_map (ts : List Phrase) : onceEach ts = ts.map once := by
  induction ts with
  | nil => rfl
  | cons t ts ih => rw [onceEach, ih, List.map_cons]

theorem baredEach_eq_map (ts : List Phrase) : baredEach ts = ts.map bared := by
  induction ts with
  | nil => rfl
  | cons t ts ih => rw [baredEach, ih, List.map_cons]

theorem loneFlat?_eq_none {ts : List Phrase} (h : ts.length ≠ 1) : loneFlat? ts = none := by
  match ts, h with
  | [], _ => rfl
  | _ :: _ :: _, _ => rfl

theorem loneFlat?_singleton (t : Phrase) :
    loneFlat? [t] = if t.isFlat then some t else none := rfl

theorem eq_of_loneFlat? {ts : List Phrase} {t : Phrase} (h : loneFlat? ts = some t) :
    ts = [t] ∧ t.isFlat = true := by
  match ts, h with
  | [u], h =>
    rw [loneFlat?_singleton] at h
    split at h
    · next hflat =>
      obtain rfl := Option.some.inj h
      exact ⟨rfl, hflat⟩
    · exact absurd h (by simp)

theorem oneElement_apply_joined {ts : List Phrase}
    (h : ∀ t ∈ ts, ∀ rest,
      oneElement.apply (t.print ++ rest) = t.once.print ++ oneElement.apply rest)
    (rest : List Char) :
    oneElement.apply (joined ts ++ rest) = joined (onceEach ts) ++ oneElement.apply rest := by
  have hts := oneElement_beginsWith.apply_intercalate h (s := ',') (by decide) rest
  rw [joined, joined, printEach_eq_map, printEach_eq_map, onceEach_eq_map, List.map_map]
  exact hts

/-- Around a tuple that is no lone flat element the parentheses stay. -/
theorem oneElement?_tuple {ts : List Phrase} (h : loneFlat? ts = none) (rest : List Char) :
    oneElement? ('(' :: (joined ts ++ ')' :: rest)) = none := by
  match ts, h with
  | [], _ => rfl
  | [t], h =>
    refine oneElement?_of_unclosed ?_
    rw [joined_singleton]
    refine unclosed_append t.nested_print fun hflat => ?_
    rw [loneFlat?_singleton, isFlat, hflat] at h
    exact absurd h (by simp)
  | t :: u :: us, _ =>
    refine oneElement?_of_unclosed ?_
    rw [joined_cons_cons, List.append_assoc, List.cons_append]
    refine unclosed_append t.nested_print fun _ => unclosed_cons (by decide) fun hcomma => ?_
    exact absurd hcomma (by decide)

/-- What a round makes of a phrase, whatever follows. -/
theorem oneElement_apply_print (t : Phrase) (rest : List Char) :
    oneElement.apply (t.print ++ rest) = t.once.print ++ oneElement.apply rest := by
  induction t generalizing rest with
  | name w => exact oneElement_beginsWith.apply_append (w.not_mem_chars rfl) rest
  | tuple ts ih =>
    simp only [print, List.cons_append, List.append_assoc, List.nil_append]
    rw [once]
    cases hlone : loneFlat? ts with
    | none =>
      have hts := oneElement_apply_joined (fun t ht rest => ih t ht rest) (')' :: rest)
      have hnone : oneElement.find? false ('(' :: (joined ts ++ ')' :: rest)) = none :=
        oneElement?_tuple hlone rest
      refine (oneElement_beginsWith.apply_of_none hnone).trans ?_
      rw [hts, oneElement_beginsWith.apply_cons (by decide), Option.getD_none, print]
      simp [joined]
    | some t =>
      obtain ⟨rfl, hflat⟩ := eq_of_loneFlat? hlone
      simpa [printEach] using oneElement_apply_element t.print_ne_nil hflat rest
  | array t n ih =>
    have hn := oneElement_beginsWith.apply_append (n.word.not_mem_chars (c := '(') rfl)
    simp only [print, once, List.cons_append, List.append_assoc, List.nil_append]
    rw [oneElement_beginsWith.apply_cons (by decide), ih,
      oneElement_beginsWith.apply_cons (by decide)]
    refine congrArg (fun tail => '[' :: (t.once.print ++ ';' :: tail)) ((hn (']' :: rest)).trans ?_)
    rw [oneElement_beginsWith.apply_cons (by decide)]
    rfl
  | slice t ih =>
    simp only [print, once, List.cons_append, List.append_assoc, List.nil_append]
    rw [oneElement_beginsWith.apply_cons (by decide), ih,
      oneElement_beginsWith.apply_cons (by decide)]
  | generic h ts ih =>
    have hts := oneElement_apply_joined (fun t ht rest => ih t ht rest) ('>' :: rest)
    simp only [print, once, List.cons_append, List.append_assoc, List.nil_append]
    rw [oneElement_beginsWith.apply_append (h.not_mem_chars rfl),
      oneElement_beginsWith.apply_cons (by decide)]
    refine congrArg (fun tail => h.chars ++ '<' :: tail) (hts.trans ?_)
    rw [oneElement_beginsWith.apply_cons (by decide)]
    rfl

/-! ## All rounds -/

theorem isFlat_of_mem_joined {ts : List Phrase} (h : (joined ts).all isElementChar = true) :
    ∀ t ∈ ts, t.isFlat = true := by
  intro t ht
  rw [isFlat, List.all_eq_true]
  exact fun c hc => List.all_eq_true.1 h c (mem_joined_of_mem ht hc)

/-- A flat phrase has no parentheses to lose. -/
theorem bared_eq_self_of_isFlat {t : Phrase} (h : t.isFlat = true) : t.bared = t := by
  induction t with
  | name w => rfl
  | tuple ts => exact absurd h (by rw [isFlat_tuple]; decide)
  | array t n ih =>
    rw [isFlat_array] at h
    rw [bared, ih h]
  | slice t ih =>
    rw [isFlat_slice] at h
    rw [bared, ih h]
  | generic g ts ih =>
    rw [isFlat_generic] at h
    rw [bared, baredEach_eq_map,
      List.map_congr_left fun t ht => ih t ht (isFlat_of_mem_joined h t ht), List.map_id']

/-- A round takes nothing that the later ones would not take. -/
theorem bared_once (t : Phrase) : t.once.bared = t.bared := by
  have each : ∀ {ts : List Phrase}, (∀ t ∈ ts, t.once.bared = t.bared) →
      baredEach (onceEach ts) = baredEach ts := by
    intro ts h
    rw [onceEach_eq_map, baredEach_eq_map, baredEach_eq_map, List.map_map]
    exact List.map_congr_left h
  induction t with
  | name w => rfl
  | tuple ts ih =>
    rw [once]
    cases hlone : loneFlat? ts with
    | none => rw [Option.getD_none, bared, bared, each ih]
    | some t =>
      obtain ⟨rfl, hflat⟩ := eq_of_loneFlat? hlone
      rw [Option.getD_some, bared, baredEach, baredEach, bared_eq_self_of_isFlat hflat, hlone,
        Option.getD_some]
  | array t n ih => rw [once, bared, bared, ih]
  | slice t ih => rw [once, bared, bared, ih]
  | generic h ts ih => rw [once, bared, bared, each ih]

/-- After a round that changes nothing no round changes anything. -/
theorem bared_eq_self_of_once {t : Phrase} (h : t.once = t) : t.bared = t := by
  have each : ∀ {ts : List Phrase}, (∀ t ∈ ts, t.once = t → t.bared = t) → onceEach ts = ts →
      baredEach ts = ts := by
    intro ts ih h
    rw [onceEach_eq_map] at h
    have heach : ∀ t ∈ ts, t.once = t := List.map_inj_left.1 (h.trans (List.map_id ts).symm)
    rw [baredEach_eq_map, List.map_congr_left fun t ht => ih t ht (heach t ht), List.map_id']
  induction t with
  | name w => rfl
  | tuple ts ih =>
    rw [once] at h
    cases hlone : loneFlat? ts with
    | none =>
      rw [hlone, Option.getD_none] at h
      rw [bared, each ih (tuple.inj h), hlone, Option.getD_none]
    | some t =>
      -- the element would be the tuple around it
      obtain ⟨rfl, hflat⟩ := eq_of_loneFlat? hlone
      rw [hlone, Option.getD_some] at h
      rw [h, isFlat_tuple] at hflat
      cases hflat
  | array t n ih => rw [bared, ih (array.inj h).1]
  | slice t ih => rw [bared, ih (slice.inj h)]
  | generic g ts ih => rw [bared, each ih (generic.inj h).2]

/-- What dropping parentheses makes of a phrase. -/
theorem flatten_print (t : Phrase) : flatten t.print = t.bared.print := by
  induction hn : t.print.length using Nat.strongRecOn generalizing t with
  | ind n ih =>
    have hround : oneElement.apply t.print = t.once.print := by
      have := t.oneElement_apply_print []
      rwa [List.append_nil, Rule.apply_nil, List.append_nil] at this
    rw [flatten, hround]
    split
    · next hshorter => rw [ih _ (hn ▸ hshorter) t.once rfl, bared_once]
    · next hkept =>
      -- a round that does not shorten the text takes nothing out of it
      have hsame : t.once = t :=
        print_injective (hround ▸ oneElement_apply_eq_self (hround ▸ hkept))
      rw [hsame, bared_eq_self_of_once hsame]

/-- Where no tuple has one element only, no parentheses are dropped. -/
theorem Proper.once_eq_self {t : Phrase} (h : t.Proper) : t.once = t := by
  induction h with
  | name w => rfl
  | tuple hn _ ih =>
    rw [once, loneFlat?_eq_none hn, Option.getD_none, onceEach_eq_map, List.map_congr_left ih,
      List.map_id']
  | array n _ ih => rw [once, ih]
  | slice _ ih => rw [once, ih]
  | generic _ _ ih => rw [once, onceEach_eq_map, List.map_congr_left ih, List.map_id']

theorem Proper.oneElement_apply_append {t : Phrase} (h : t.Proper) (rest : List Char) :
    oneElement.apply (t.print ++ rest) = t.print ++ oneElement.apply rest := by
  rw [oneElement_apply_print, h.once_eq_self]

end Phrase

end ChainTypings.Spelling
