import ChainTypings.Proofs.Spelling.Undecorating
import ChainTypings.Spelling.Box

/-!
# Opening boxes

The first box of a text is opened, and the search starts again, until no box is left. Seen from
the phrase the order does not matter: every box gives way to its content (`unbox_boxed`).

The argument goes through the text from left to right. What lies behind is `Passed`: it holds no
box and none starts in it, so the first box is the first one ahead, and `unbox_box` opens it.
-/

namespace ChainTypings.Spelling

open Text

/-! ## The first box -/

/-- Whatever follows, no box starts in the text. -/
def Passed (xs : List Char) : Prop :=
  ∀ rest, firstBox? false (xs ++ rest) =
    (firstBox? false rest).map fun (before, after) => (xs ++ before, after)

theorem firstBox?_true_word {w : List Char} {c : Char} (hw : ∀ x ∈ w, isWordChar x = true)
    (hc : isWordChar c = false) (rest : List Char) :
    firstBox? true (w ++ c :: rest) =
      (firstBox? false rest).map fun (before, after) => (w ++ c :: before, after) := by
  induction w with
  | nil =>
    rw [List.nil_append, firstBox?, hc]
    rfl
  | cons x w ih =>
    simp only [List.mem_cons, forall_eq_or_imp] at hw
    rw [List.cons_append, firstBox?, hw.1, ih hw.2]
    simp only [if_true, Option.map_map]
    rfl

namespace Passed

variable {xs ys : List Char}

theorem nil : Passed [] := by
  intro rest
  simp

theorem append (h : Passed xs) (h' : Passed ys) : Passed (xs ++ ys) := by
  intro rest
  rw [List.append_assoc, h, h', Option.map_map]
  congr 1
  funext p
  simp

/-- A word is passed with the character behind it unless both make the start of a box. -/
theorem word {w : List Char} {c : Char} (hw : ∀ x ∈ w, isWordChar x = true)
    (hc : isWordChar c = false) (hb : ¬(w = AsciiWord.box.chars ∧ c = '<')) :
    Passed (w ++ [c]) := by
  intro rest
  rw [List.append_assoc, List.singleton_append]
  have hnone : after? ['B', 'o', 'x', '<'] (w ++ c :: rest) = none := by
    cases ha : after? ['B', 'o', 'x', '<'] (w ++ c :: rest) with
    | none => rfl
    | some tail =>
      have he : w ++ c :: rest = AsciiWord.box.chars ++ '<' :: tail :=
        (after?_eq ha).trans rfl
      obtain ⟨h₁, h₂, -⟩ := append_cons_inj hw AsciiWord.box.isWordChar hc rfl he
      exact absurd ⟨h₁, h₂⟩ hb
  -- no box at the first character, and from the second on the scanner is inside a word
  cases w with
  | nil =>
    rw [List.nil_append] at hnone ⊢
    rw [firstBox?, if_neg Bool.false_ne_true, hnone, hc]
    rfl
  | cons x w =>
    simp only [List.mem_cons, forall_eq_or_imp] at hw
    rw [List.cons_append] at hnone ⊢
    rw [firstBox?, if_neg Bool.false_ne_true, hnone, hw.1, firstBox?_true_word hw.2 hc]
    simp only [Option.map_map]
    congr 1
    funext p
    simp

theorem mark {c : Char} (hc : isMark c = true) : Passed [c] := by
  refine word (w := []) (by simp) (isWordChar_eq_false_of_isMark hc) ?_
  rintro ⟨h, -⟩
  exact absurd h (by decide)

end Passed

theorem after?_eq_none_of_append {piece : List Char} (xs ys : List Char)
    (h : after? piece (xs ++ ys) = none) : after? piece xs = none := by
  induction piece generalizing xs with
  | nil => exact absurd h (by simp [after?])
  | cons p piece ih =>
    cases xs with
    | nil => rfl
    | cons x xs =>
      rw [List.cons_append] at h
      by_cases hp : p = x
      · simp only [after?, hp, if_true] at h ⊢
        exact ih xs h
      · simp [after?, hp]

theorem firstBox?_eq_none_of_append {inWord : Bool} {xs ys : List Char}
    (h : firstBox? inWord (xs ++ ys) = none) : firstBox? inWord xs = none := by
  induction xs generalizing inWord with
  | nil => rfl
  | cons x xs ih =>
    rw [List.cons_append] at h
    cases inWord with
    | true =>
      simp only [firstBox?, if_true, Option.map_eq_none_iff] at h ⊢
      exact ih h
    | false =>
      rw [firstBox?, if_neg Bool.false_ne_true] at h ⊢
      cases ha : after? ['B', 'o', 'x', '<'] (x :: (xs ++ ys)) with
      | some rest =>
        rw [ha] at h
        exact absurd h (by simp)
      | none =>
        rw [ha] at h
        rw [after?_eq_none_of_append (x :: xs) ys ha]
        simp only [Option.map_eq_none_iff] at h ⊢
        exact ih h

/-! ## Opening one box -/

/-- The first box ahead is opened. -/
theorem unbox_box {xs cs : List Char} (h : Passed xs)
    (hcs : Bracket.Nested (isWordChar · = true) cs) (rest : List Char) :
    unbox (xs ++ (AsciiWord.box.chars ++ '<' :: (cs ++ '>' :: rest))) =
      unbox (xs ++ (cs ++ rest)) := by
  have hfirst : firstBox? false (AsciiWord.box.chars ++ '<' :: (cs ++ '>' :: rest)) =
      some ([], cs ++ '>' :: rest) := by
    simp [AsciiWord.box, firstBox?, after?]
  -- the matcher finds the bracket of this box, for the content is well-bracketed
  have hdrop : dropBox? (xs ++ (AsciiWord.box.chars ++ '<' :: (cs ++ '>' :: rest))) =
      some (xs ++ (cs ++ rest)) := by
    rw [dropBox?, h, hfirst]
    simp only [Option.map_some]
    rw [Bracket.enclosed_of_nested hcs rfl rfl]
    simp
  rw [unbox]
  split
  · next new hn =>
    rw [hdrop] at hn
    rw [Option.some.inj hn]
  · next hn =>
    rw [hdrop] at hn
    exact absurd hn (by simp)

/-! ## Phrases without boxes -/

/-- A phrase from which the later passes take nothing away: no generic type is a box, and no tuple
has one element only. -/
inductive Phrase.Proper : Phrase → Prop
  | name (w) : Proper (.name w)
  | tuple {ts} : ts.length ≠ 1 → (∀ t ∈ ts, Proper t) → Proper (.tuple ts)
  | array {t} (n) : Proper t → Proper (.array t n)
  | slice {t} : Proper t → Proper (.slice t)
  | generic {h ts} : h ≠ .box → (∀ t ∈ ts, Proper t) → Proper (.generic h ts)

/-- A phrase of which no generic type is a box. -/
inductive Phrase.Unboxed : Phrase → Prop
  | name (w) : Unboxed (.name w)
  | tuple {ts} : (∀ t ∈ ts, Unboxed t) → Unboxed (.tuple ts)
  | array {t} (n) : Unboxed t → Unboxed (.array t n)
  | slice {t} : Unboxed t → Unboxed (.slice t)
  | generic {h ts} : h ≠ .box → (∀ t ∈ ts, Unboxed t) → Unboxed (.generic h ts)

theorem Phrase.Proper.unboxed {t : Phrase} (h : t.Proper) : t.Unboxed := by
  induction h with
  | name w => exact .name w
  | tuple _ _ ih => exact .tuple ih
  | array n _ ih => exact .array n ih
  | slice _ ih => exact .slice ih
  | generic hb _ ih => exact .generic hb ih

/-- A phrase without boxes is passed with what ends it. -/
def Phrase.PassedBefore (t : Phrase) : Prop :=
  ∀ c, isEnd c = true → Passed (t.print ++ [c])

theorem passed_joined {ts : List Phrase} (h : ∀ t ∈ ts, t.PassedBefore) {c : Char}
    (hc : isEnd c = true) : Passed (Phrase.joined ts ++ [c]) := by
  induction ts with
  | nil => exact .mark (isMark_of_isEnd hc)
  | cons t ts ih =>
    have ht := h t (by simp)
    cases ts with
    | nil => simpa using ht c hc
    | cons u us =>
      have hus := ih fun v hv => h v (List.mem_cons_of_mem _ hv)
      have := (ht ',' rfl).append hus
      simpa using this

theorem Phrase.Unboxed.passedBefore {t : Phrase} (h : t.Unboxed) : t.PassedBefore := by
  induction h with
  | name w =>
    intro c hc
    refine .word w.isWordChar (isWordChar_eq_false_of_isMark (isMark_of_isEnd hc)) ?_
    rintro ⟨-, rfl⟩
    exact absurd hc (by decide)
  | tuple _ ih =>
    intro c hc
    have hend : Passed [c] := .mark (isMark_of_isEnd hc)
    have hopen : Passed ['('] := .mark rfl
    have := hopen.append ((passed_joined ih (c := ')') rfl).append hend)
    simpa [Phrase.print, Phrase.joined] using this
  | @array t n _ ih =>
    intro c hc
    have hend : Passed [c] := .mark (isMark_of_isEnd hc)
    have hopen : Passed ['['] := .mark rfl
    have hcount : Passed (n.digits ++ [']']) :=
      .word n.word.isWordChar rfl fun hb => absurd hb.2 (by decide)
    have := hopen.append ((ih ';' rfl).append (hcount.append hend))
    simpa [Phrase.print] using this
  | slice _ ih =>
    intro c hc
    have hend : Passed [c] := .mark (isMark_of_isEnd hc)
    have hopen : Passed ['['] := .mark rfl
    have := hopen.append ((ih ']' rfl).append hend)
    simpa [Phrase.print] using this
  | @generic w ts hb _ ih =>
    intro c hc
    have hend : Passed [c] := .mark (isMark_of_isEnd hc)
    have hhead : Passed (w.chars ++ ['<']) :=
      .word w.isWordChar rfl fun h => hb (AsciiWord.ext h.1)
    have := hhead.append ((passed_joined ih (c := '>') rfl).append hend)
    simpa [Phrase.print, Phrase.joined] using this

theorem Phrase.Unboxed.firstBox?_print {t : Phrase} (h : t.Unboxed) :
    firstBox? false t.print = none := by
  have hnone : firstBox? false (t.print ++ [',']) = none := by
    have := h.passedBefore ',' rfl []
    simpa [firstBox?] using this
  exact firstBox?_eq_none_of_append hnone

/-- A text without boxes is left as it is. -/
theorem unbox_eq_self {cs : List Char} (h : firstBox? false cs = none) : unbox cs = cs := by
  have hdrop : dropBox? cs = none := by rw [dropBox?, h]
  rw [unbox]
  split
  · next hn =>
    rw [hdrop] at hn
    exact absurd hn (by simp)
  · rfl

theorem Phrase.Unboxed.unbox_print {t : Phrase} (h : t.Unboxed) : unbox t.print = t.print :=
  unbox_eq_self h.firstBox?_print

theorem Phrase.Proper.unbox_print {t : Phrase} (h : t.Proper) : unbox t.print = t.print :=
  h.unboxed.unbox_print

namespace Decorated

theorem proper_strip (d : Decorated) : d.strip.Proper := by
  induction d with
  | name p w => exact .name w
  | unit => exact .tuple (by simp) (by simp)
  | tuple a b ds iha ihb ih =>
    refine .tuple (by simp) ?_
    simpa [stripEach_eq_map] using ⟨iha, ihb, ih⟩
  | array d b n ih => exact .array n ih
  | slice d ih => exact .slice ih
  | generic p h hb ds ih => exact .generic hb (by simpa [stripEach_eq_map] using ih)
  | box p d ih => exact ih
  | reference d ih => exact ih
  | lifetime l b h d ih => exact ih
  | spaced b d ih => exact ih

/-! ## All boxes -/

/-- In whatever text the phrase stands, opening boxes does not tell it from the phrase with its
boxes opened. -/
def OpensTo (t u : Phrase) : Prop :=
  ∀ xs rest, Passed xs → unbox (xs ++ (t.print ++ rest)) = unbox (xs ++ (u.print ++ rest))

theorem unbox_joined (ds : List Decorated) (h : ∀ d ∈ ds, OpensTo d.boxed d.strip)
    {xs : List Char} (hxs : Passed xs) (rest : List Char) :
    unbox (xs ++ (Phrase.joined (ds.map boxed) ++ rest)) =
      unbox (xs ++ (Phrase.joined (ds.map strip) ++ rest)) := by
  induction ds generalizing xs with
  | nil => rfl
  | cons d ds ih =>
    have hd := h d (by simp)
    cases ds with
    | nil => simpa using hd xs rest hxs
    | cons e es =>
      -- once the boxes of the first part are open, the text up to the comma is behind
      have hpast : Passed (xs ++ (d.strip.print ++ [','])) :=
        hxs.append (d.proper_strip.unboxed.passedBefore ',' rfl)
      have hes := ih (fun f hf => h f (List.mem_cons_of_mem _ hf)) hpast
      have hhead := hd xs (',' :: (Phrase.joined ((e :: es).map boxed) ++ rest)) hxs
      simp only [List.map_cons, Phrase.joined_cons_cons, List.append_assoc, List.cons_append,
        List.nil_append] at hes hhead ⊢
      rw [hhead, hes]

/-- Opening the boxes of a phrase leaves the phrase without decorations. -/
theorem opensTo_strip (d : Decorated) : OpensTo d.boxed d.strip := by
  induction d with
  | name p w => exact fun _ _ _ => rfl
  | unit => exact fun _ _ _ => rfl
  | tuple a b ds iha ihb ih =>
    intro xs rest hxs
    have hopen : Passed (xs ++ ['(']) := hxs.append (.mark rfl)
    have := unbox_joined (a :: b :: ds) (by simpa using ⟨iha, ihb, ih⟩) hopen (')' :: rest)
    simpa [boxed, strip, Phrase.print, Phrase.joined, boxedEach_eq_map, stripEach_eq_map] using this
  | array d b n ih =>
    intro xs rest hxs
    have hopen : Passed (xs ++ ['[']) := hxs.append (.mark rfl)
    have := ih _ (';' :: (n.digits ++ ']' :: rest)) hopen
    simpa [boxed, strip, Phrase.print] using this
  | slice d ih =>
    intro xs rest hxs
    have hopen : Passed (xs ++ ['[']) := hxs.append (.mark rfl)
    have := ih _ (']' :: rest) hopen
    simpa [boxed, strip, Phrase.print] using this
  | generic p h hb ds ih =>
    intro xs rest hxs
    have hhead : Passed (xs ++ (h.chars ++ ['<'])) :=
      hxs.append (.word h.isWordChar rfl fun he => hb (AsciiWord.ext he.1))
    have := unbox_joined ds ih hhead ('>' :: rest)
    simpa [boxed, strip, Phrase.print, Phrase.joined, boxedEach_eq_map, stripEach_eq_map] using this
  | box p d ih =>
    intro xs rest hxs
    -- the box is the first one ahead: it is opened before its content is gone through
    have := unbox_box hxs d.boxed.nested_print rest
    rw [strip, ← ih xs rest hxs, ← this]
    simp [boxed, Phrase.print, Phrase.printEach]
  | reference d ih => exact ih
  | lifetime l b h d ih => exact ih
  | spaced b d ih => exact ih

/-- Opening boxes leaves the phrase without decorations. -/
theorem unbox_boxed (d : Decorated) : unbox d.boxed.print = d.strip.print := by
  have := d.opensTo_strip [] [] .nil
  simp only [List.nil_append, List.append_nil] at this
  rw [this, d.proper_strip.unbox_print]

end Decorated

end ChainTypings.Spelling
