import ChainTypings.Proofs.Bracket.Nested
import ChainTypings.Proofs.Spelling.Cut

/-!
# Type phrases

A type text without decorations as a tree: a name, a tuple, an array or a slice, or a generic type
with its arguments. `print` writes a phrase without blanks. Its text is well-bracketed and has only
word characters outside the brackets (`nested_print`), which is all that the readers of brackets
ask for.

`Phrase.aliased` gives texts and byte sequences their own names, and a `Proper` phrase holds
nothing that a normal spelling would still take away.
-/

namespace ChainTypings.Text.AsciiWord

/-! ## Words with a meaning -/

/-- The word of a box. -/
def box : AsciiWord := .of ['B', 'o', 'x']

/-- The two words for text. -/
def string : AsciiWord := .of ['S', 't', 'r', 'i', 'n', 'g']

@[inherit_doc string]
def str : AsciiWord := .of ['s', 't', 'r']

/-- The name that registries use for text. -/
def text : AsciiWord := .of ['T', 'e', 'x', 't']

/-- The word of a vector. -/
def vec : AsciiWord := .of ['V', 'e', 'c']

/-- The name of a byte. -/
def u8 : AsciiWord := .of ['u', '8']

/-- The name that registries use for a sequence of bytes. -/
def bytes : AsciiWord := .of ['B', 'y', 't', 'e', 's']

/-- Whether the word is one for text. -/
def isText (w : AsciiWord) : Bool := w = string || w = str

/-- The word, or the name for text. -/
def renamed (w : AsciiWord) : AsciiWord := if w.isText then text else w

theorem ext {w v : AsciiWord} (h : w.chars = v.chars) : w = v := by
  cases w
  cases v
  cases h
  rfl

/-- The words for text start with their letter. -/
theorem isText_eq_false {w : AsciiWord} {c : Char} {cs : List Char} (h : w.chars = c :: cs)
    (hS : c ≠ 'S') (hs : c ≠ 's') : w.isText = false := by
  cases ht : w.isText with
  | false => rfl
  | true =>
    simp only [isText, Bool.or_eq_true, decide_eq_true_eq] at ht
    rcases ht with rfl | rfl
    · exact absurd (List.cons.inj h).1.symm hS
    · exact absurd (List.cons.inj h).1.symm hs

theorem isText_numeral (n : Numeral) : n.word.isText = false := by
  obtain ⟨c, cs, hc⟩ := n.word.exists_cons
  have hd : c.isDigit = true := n.decimal c (by
    rw [show n.digits = c :: cs from hc]
    exact List.mem_cons_self)
  refine isText_eq_false hc ?_ ?_ <;>
  · rintro rfl
    exact absurd hd (by decide)

theorem renamed_eq_self {w : AsciiWord} (h : w.isText = false) : w.renamed = w := by
  rw [renamed, h]
  rfl

end ChainTypings.Text.AsciiWord

namespace ChainTypings.Spelling

open Text ChainTypings.Bracket

/-- A type text without decorations. -/
inductive Phrase where
  | name (word : AsciiWord)
  | tuple (elements : List Phrase)
  | array (element : Phrase) (count : Numeral)
  | slice (element : Phrase)
  | generic (head : AsciiWord) (arguments : List Phrase)

namespace Phrase

/-- Induction on phrases, with a hypothesis for each element of a tuple and each argument. -/
@[elab_as_elim, induction_eliminator]
theorem induction {motive : Phrase → Prop} (name : ∀ w, motive (.name w))
    (tuple : ∀ ts, (∀ t ∈ ts, motive t) → motive (.tuple ts))
    (array : ∀ t n, motive t → motive (.array t n))
    (slice : ∀ t, motive t → motive (.slice t))
    (generic : ∀ h ts, (∀ t ∈ ts, motive t) → motive (.generic h ts)) : ∀ t, motive t
  | .name w => name w
  | .tuple ts => tuple ts fun t _ => induction name tuple array slice generic t
  | .array t n => array t n (induction name tuple array slice generic t)
  | .slice t => slice t (induction name tuple array slice generic t)
  | .generic h ts => generic h ts fun t _ => induction name tuple array slice generic t

/-! ## Writing -/

mutual

/-- The text of a phrase. -/
def print : Phrase → List Char
  | name w => w.chars
  | tuple ts => '(' :: ([','].intercalate (printEach ts) ++ [')'])
  | array t n => '[' :: (print t ++ ';' :: (n.digits ++ [']']))
  | slice t => '[' :: (print t ++ [']'])
  | generic h ts => h.chars ++ '<' :: ([','].intercalate (printEach ts) ++ ['>'])

/-- The texts of several phrases. -/
def printEach : List Phrase → List (List Char)
  | [] => []
  | t :: ts => print t :: printEach ts

end

/-- The text of phrases with commas between. -/
def joined (ts : List Phrase) : List Char := [','].intercalate (printEach ts)

theorem printEach_eq_map (ts : List Phrase) : printEach ts = ts.map print := by
  induction ts with
  | nil => rfl
  | cons t ts ih => rw [printEach, ih, List.map_cons]

@[simp] theorem joined_nil : joined [] = [] := rfl

@[simp] theorem joined_singleton (t : Phrase) : joined [t] = t.print := List.intercalate_singleton

@[simp] theorem joined_cons_cons (t u : Phrase) (ts : List Phrase) :
    joined (t :: u :: ts) = t.print ++ ',' :: joined (u :: ts) := by
  simp [joined, printEach, List.intercalate_cons_cons]

theorem print_ne_nil (t : Phrase) : t.print ≠ [] := by
  cases t with
  | name w => exact w.ne_nil
  | tuple ts => simp [print]
  | array t n => simp [print]
  | slice t => simp [print]
  | generic h ts => simp [print]

/-! ## Brackets -/

theorem nested_chars (w : AsciiWord) : Nested (isWordChar · = true) w.chars :=
  .of_forall (fun c hc => isOpener_eq_false_of_isWordChar (w.isWordChar c hc))
    (fun c hc => isCloser_eq_false_of_isWordChar (w.isWordChar c hc)) w.isWordChar

theorem nested_joined {ts : List Phrase}
    (h : ∀ t ∈ ts, Nested (isWordChar · = true) t.print) : Nested (fun _ => True) (joined ts) := by
  induction ts with
  | nil => exact .nil
  | cons t ts ih =>
    have ht := (h t (by simp)).mono fun _ _ => trivial
    cases ts with
    | nil => simpa using ht
    | cons u us =>
      rw [joined_cons_cons]
      exact ht.append (.plain rfl rfl trivial
        (ih fun v hv => h v (List.mem_cons_of_mem _ hv)))

/-- The text of a phrase is well-bracketed and has only word characters outside the brackets. -/
theorem nested_print (t : Phrase) : Nested (isWordChar · = true) t.print := by
  induction t with
  | name w => exact nested_chars w
  | tuple ts ih => exact .bracket rfl (nested_joined ih)
  | array t n ih =>
    rw [print, ← List.cons_append (a := ';'), ← List.append_assoc]
    refine .bracket rfl (.append (ih.mono fun _ _ => trivial) ?_)
    exact .plain rfl rfl trivial ((nested_chars n.word).mono fun _ _ => trivial)
  | slice t ih => exact .bracket rfl (ih.mono fun _ _ => trivial)
  | generic h ts ih => exact (nested_chars h).append (.bracket rfl (nested_joined ih))

/-- A phrase is one part between any separators that are no word characters. -/
theorem part_print {s : Char} (hs : isWordChar s = false) (t : Phrase) : Part s t.print :=
  t.nested_print.mono fun _ hc => ne_of_isWordChar hc hs

/-- Splitting at commas undoes joining. -/
theorem splitTopLevel_joined (ts : List Phrase) :
    splitTopLevel [','] (joined ts) = ts.map print := by
  rw [joined, printEach_eq_map]
  refine splitTopLevel_intercalate rfl rfl ?_ ?_
  · intro p hp
    obtain ⟨t, -, rfl⟩ := List.mem_map.1 hp
    exact t.print_ne_nil
  · intro p hp
    obtain ⟨t, -, rfl⟩ := List.mem_map.1 hp
    exact t.part_print rfl

theorem mem_joined_of_mem {ts : List Phrase} {t : Phrase} (ht : t ∈ ts) {c : Char}
    (hc : c ∈ t.print) : c ∈ joined ts := by
  induction ts with
  | nil => exact absurd ht List.not_mem_nil
  | cons u us ih =>
    cases us with
    | nil =>
      obtain rfl := List.mem_singleton.1 ht
      simpa using hc
    | cons v vs =>
      rw [joined_cons_cons, List.mem_append, List.mem_cons]
      rcases List.mem_cons.1 ht with rfl | ht
      · exact .inl hc
      · exact .inr (.inr (ih ht))

/-- The part in front of a semicolon and the number behind it are what an array is split into. -/
theorem splitTopLevel_array (t : Phrase) (n : Numeral) :
    splitTopLevel [';'] (t.print ++ ';' :: n.digits) = [t.print, n.digits] := by
  have hparts : ∀ p ∈ [t.print, n.digits], Part ';' p := by
    simp only [List.mem_cons, List.not_mem_nil, or_false, forall_eq_or_imp, forall_eq]
    exact ⟨t.part_print rfl, (name n.word).part_print rfl⟩
  have := splitTopLevel_intercalate (s := ';') rfl rfl
    (by simpa using ⟨t.print_ne_nil, n.ne_nil⟩) hparts
  simpa [List.intercalate_cons_cons] using this

/-- A phrase without a semicolon outside its brackets is not split. -/
theorem splitTopLevel_slice (t : Phrase) : splitTopLevel [';'] t.print = [t.print] := by
  have hpart : ∀ p ∈ [t.print], Part ';' p := by
    simpa using t.part_print rfl
  have := splitTopLevel_intercalate (s := ';') rfl rfl (by simpa using t.print_ne_nil) hpart
  simpa using this

theorem eq_of_joined {ts us : List Phrase} (h : ∀ t ∈ ts, ∀ {u : Phrase}, t.print = u.print → t = u)
    (he : joined ts = joined us) : ts = us := by
  have hmap : ts.map print = us.map print := by
    rw [← splitTopLevel_joined, he, splitTopLevel_joined]
  clear he
  induction ts generalizing us with
  | nil => exact (List.map_eq_nil_iff.1 hmap.symm).symm
  | cons t ts ih =>
    cases us with
    | nil => exact absurd hmap (by simp)
    | cons u us =>
      obtain ⟨hhead, htail⟩ := List.cons.inj hmap
      rw [h t (by simp) hhead, ih (fun v hv => h v (List.mem_cons_of_mem _ hv)) htail]

/-- A phrase is told by its text. -/
theorem print_injective : Function.Injective print := by
  intro t u h
  induction t generalizing u with
  | name w =>
    cases u with
    | name v => rw [AsciiWord.ext h]
    | generic g us =>
      have hmem : '<' ∈ (generic g us).print := by simp [print]
      rw [← h] at hmem
      exact absurd hmem (w.not_mem_chars rfl)
    | _ => exact absurd ((List.append_nil _).trans h) (w.append_ne_cons rfl)
  | tuple ts ih =>
    cases u with
    | tuple us =>
      have hjoined := List.append_cancel_right (List.cons.inj h).2
      rw [eq_of_joined (fun t ht u => ih t ht (u := u)) hjoined]
    | name w => exact absurd ((List.append_nil _).trans h.symm) (w.append_ne_cons rfl)
    | generic g us => exact absurd h.symm (g.append_ne_cons rfl)
    | _ => exact absurd (List.cons.inj h).1 (by decide)
  | array t n ih =>
    cases u with
    | array u m =>
      have hinside :
          (t.print ++ ';' :: n.digits) ++ [']'] = (u.print ++ ';' :: m.digits) ++ [']'] := by
        simpa using (List.cons.inj h).2
      have hsplit := splitTopLevel_array t n
      rw [List.append_cancel_right hinside, splitTopLevel_array] at hsplit
      obtain ⟨helement, hcount⟩ := List.cons.inj hsplit
      obtain rfl : m = n := Numeral.ext (List.cons.inj hcount).1
      rw [ih helement.symm]
    | slice u =>
      have hinside : (t.print ++ ';' :: n.digits) ++ [']'] = u.print ++ [']'] := by
        simpa using (List.cons.inj h).2
      have hsplit := splitTopLevel_array t n
      rw [List.append_cancel_right hinside, splitTopLevel_slice] at hsplit
      exact absurd (List.cons.inj hsplit).2 (by simp)
    | name w => exact absurd ((List.append_nil _).trans h.symm) (w.append_ne_cons rfl)
    | generic g us => exact absurd h.symm (g.append_ne_cons rfl)
    | tuple us => exact absurd (List.cons.inj h).1 (by decide)
  | slice t ih =>
    cases u with
    | slice u => rw [ih (List.append_cancel_right (List.cons.inj h).2)]
    | array u m =>
      have hinside : (u.print ++ ';' :: m.digits) ++ [']'] = t.print ++ [']'] := by
        simpa using (List.cons.inj h).2.symm
      have hsplit := splitTopLevel_array u m
      rw [List.append_cancel_right hinside, splitTopLevel_slice] at hsplit
      exact absurd (List.cons.inj hsplit).2 (by simp)
    | name w => exact absurd ((List.append_nil _).trans h.symm) (w.append_ne_cons rfl)
    | generic g us => exact absurd h.symm (g.append_ne_cons rfl)
    | tuple us => exact absurd (List.cons.inj h).1 (by decide)
  | generic g ts ih =>
    cases u with
    | generic k us =>
      obtain ⟨hhead, -, htail⟩ := append_cons_inj g.isWordChar k.isWordChar rfl rfl h
      have hjoined := List.append_cancel_right htail
      rw [AsciiWord.ext hhead, eq_of_joined (fun t ht u => ih t ht (u := u)) hjoined]
    | name w =>
      have hmem : '<' ∈ (generic g ts).print := by simp [print]
      rw [h] at hmem
      exact absurd hmem (w.not_mem_chars rfl)
    | _ => exact absurd h (g.append_ne_cons rfl)

/-! ## Names for texts and byte sequences -/

mutual

/-- The phrase with the words for text renamed. -/
def renamed : Phrase → Phrase
  | name w => name w.renamed
  | tuple ts => tuple (renamedEach ts)
  | array t n => array (renamed t) n
  | slice t => slice (renamed t)
  | generic h ts => generic h.renamed (renamedEach ts)

/-- Several phrases with the words for text renamed. -/
def renamedEach : List Phrase → List Phrase
  | [] => []
  | t :: ts => renamed t :: renamedEach ts

end

/-- Whether the phrase is the name of a byte. -/
def isByte : Phrase → Bool
  | name w => w = .u8
  | _ => false

/-- Whether the phrases are the name of a byte and nothing else. -/
def areByte : List Phrase → Bool
  | [t] => t.isByte
  | _ => false

mutual

/-- The phrase with every vector and every slice of bytes renamed. -/
def packed : Phrase → Phrase
  | name w => name w
  | tuple ts => tuple (packedEach ts)
  | array t n => array (packed t) n
  | slice t => if t.isByte then name .bytes else slice (packed t)
  | generic h ts => if h = .vec ∧ areByte ts then name .bytes else generic h (packedEach ts)

/-- Several phrases with every vector and every slice of bytes renamed. -/
def packedEach : List Phrase → List Phrase
  | [] => []
  | t :: ts => packed t :: packedEach ts

end

/-- The phrase with names for texts and for byte sequences. -/
def aliased (t : Phrase) : Phrase := t.renamed.packed

theorem renamedEach_eq_map (ts : List Phrase) : renamedEach ts = ts.map renamed := by
  induction ts with
  | nil => rfl
  | cons t ts ih => rw [renamedEach, ih, List.map_cons]

theorem packedEach_eq_map (ts : List Phrase) : packedEach ts = ts.map packed := by
  induction ts with
  | nil => rfl
  | cons t ts ih => rw [packedEach, ih, List.map_cons]

end Phrase

end ChainTypings.Spelling
