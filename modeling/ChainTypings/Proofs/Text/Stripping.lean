import ChainTypings.Text.Blank
import Mathlib.Data.List.DropRight

/-!
# Text less the blanks at its ends

Stripping takes the blanks from the two ends of a text and nothing else (`trims_iff`). So a mark
of two characters, of which neither is a blank, is in the stripped text if it is in the text
(`pair_infix_strip_iff`).
-/

namespace ChainTypings.Text

/-- Blanks are taken away from the end of the second text, and from the end of the first if nothing
else is left of the second. -/
theorem stripEnd_append (xs ys : List Char) :
    stripEnd (xs ++ ys) = if stripEnd ys = [] then stripEnd xs else xs ++ stripEnd ys := by
  simp only [stripEnd, List.reverse_append, List.dropWhile_append, List.isEmpty_iff,
    List.reverse_eq_nil_iff]
  split
  · rfl
  · simp

theorem stripEnd_strip (cs : List Char) : stripEnd (strip cs) = strip cs :=
  List.rdropWhile_idempotent isBlank (stripStart cs)

/-- A text is what stripping leaves of it, with blanks around. -/
theorem exists_strip (cs : List Char) : ∃ front back, cs = front ++ strip cs ++ back ∧
    (∀ c ∈ front, isBlank c = true) ∧ ∀ c ∈ back, isBlank c = true := by
  refine ⟨cs.takeWhile isBlank, (stripStart cs).rtakeWhile isBlank, ?_, ?_, ?_⟩
  · have hstart : cs.takeWhile isBlank ++ stripStart cs = cs := List.takeWhile_append_dropWhile
    have hend : strip cs ++ (stripStart cs).rtakeWhile isBlank = stripStart cs :=
      List.rdropWhile_append_rtakeWhile
    rw [List.append_assoc, hend, hstart]
  · exact fun c hc => List.mem_takeWhile_imp hc
  · exact fun c hc => List.mem_rtakeWhile_imp hc

/-- The second text is the first without the blanks at its two ends. -/
structure Trims (cs kept : List Char) : Prop where
  around : ∃ front back, cs = front ++ kept ++ back ∧ (∀ c ∈ front, isBlank c = true) ∧
    ∀ c ∈ back, isBlank c = true
  first : ∀ c ∈ kept.head?, isBlank c = false
  last : ∀ c ∈ kept.getLast?, isBlank c = false

theorem trims_strip (cs : List Char) : Trims cs (strip cs) := by
  refine ⟨exists_strip cs, fun c hc => ?_, fun c hc => ?_⟩
  · -- the first character left is the first behind the blanks at the start
    obtain ⟨back, hback⟩ : strip cs <+: stripStart cs := List.rdropWhile_prefix isBlank _
    have hfirst : (stripStart cs).head? = some c := by
      rw [← hback, List.head?_append, Option.mem_def.1 hc, Option.some_or]
    have hnot := List.head?_dropWhile_not isBlank cs
    rw [← stripStart, hfirst] at hnot
    exact hnot
  · obtain ⟨hne, rfl⟩ := List.mem_getLast?_eq_getLast hc
    exact Bool.eq_false_iff.2 (List.rdropWhile_last_not isBlank (stripStart cs) hne)

/-- Nothing but the stripped text is left of a text without the blanks at its ends. -/
theorem Trims.eq_strip {cs kept : List Char} (h : Trims cs kept) : kept = strip cs := by
  obtain ⟨⟨front, back, rfl, hfront, hback⟩, hfirst, hlast⟩ := h
  have hstart : stripStart (front ++ kept ++ back) = stripStart (kept ++ back) := by
    rw [List.append_assoc, stripStart, List.dropWhile_append_of_pos hfront, stripStart]
  have hend : stripEnd (kept ++ back) = kept := by
    have hkept : stripEnd kept = kept := List.rdropWhile_eq_self_iff.2 fun hne => by
      simp [hlast _ (List.getLast?_eq_some_getLast hne)]
    have hnone : stripEnd back = [] := List.rdropWhile_eq_nil_iff.2 hback
    rw [stripEnd_append, if_pos hnone, hkept]
  rw [strip, hstart]
  cases kept with
  | nil =>
    have hnone : stripStart ([] ++ back) = [] := List.dropWhile_eq_nil_iff.2 hback
    rw [hnone]
    rfl
  | cons c kept =>
    have hc : isBlank c = false := hfirst c rfl
    have hkeep : stripStart (c :: kept ++ back) = c :: kept ++ back := by
      rw [stripStart, List.cons_append, List.dropWhile_cons_of_neg (by simp [hc])]
    rw [hkeep, hend]

theorem trims_iff {cs kept : List Char} : Trims cs kept ↔ kept = strip cs := by
  constructor
  · exact Trims.eq_strip
  · rintro rfl
    exact trims_strip cs

/-! ## Marks of two characters -/

/-- A pair of characters that stands in two texts one behind the other stands in one of them, or
across their boundary. -/
theorem pair_infix_append_iff {α : Type} {a b : α} {xs ys : List α} :
    [a, b] <:+: xs ++ ys ↔ [a, b] <:+: xs ∨ [a, b] <:+: ys ∨
      xs.getLast? = some a ∧ ys.head? = some b := by
  induction xs with
  | nil => simp
  | cons x xs ih =>
    rw [List.cons_append, List.infix_cons_iff, List.infix_cons_iff, ih]
    cases xs with
    | nil =>
      have hfront : [a, b] <+: x :: ([] ++ ys) ↔ [x].getLast? = some a ∧ ys.head? = some b := by
        cases ys <;> simp [List.cons_prefix_cons, eq_comm]
      rw [hfront]
      simp [or_comm]
    | cons y xs => simp [List.cons_prefix_cons, or_assoc]

section

variable {a b : Char} {xs : List Char}

/-- A character between two texts that is neither of the pair keeps the texts apart. -/
theorem pair_infix_append_cons_iff {c : Char} (hca : c ≠ a) (hcb : c ≠ b) {ys : List Char} :
    [a, b] <:+: xs ++ c :: ys ↔ [a, b] <:+: xs ∨ [a, b] <:+: ys := by
  have hbehind : [a, b] <:+: c :: ys ↔ [a, b] <:+: ys := by
    simp [List.infix_cons_iff, List.cons_prefix_cons, hca.symm]
  rw [pair_infix_append_iff, hbehind]
  simp [hcb]

theorem not_infix_pair (ha : a ∉ xs) : ¬[a, b] <:+: xs := fun h =>
  ha (h.subset List.mem_cons_self)

/-- No pair of characters reaches into text that holds neither. -/
theorem pair_infix_append_left_iff {ys : List Char} (ha : a ∉ ys) (hb : b ∉ ys) :
    [a, b] <:+: xs ++ ys ↔ [a, b] <:+: xs := by
  rw [pair_infix_append_iff]
  refine ⟨?_, .inl⟩
  rintro (h | h | ⟨-, h⟩)
  · exact h
  · exact absurd h (not_infix_pair ha)
  · exact absurd (List.mem_of_mem_head? h) hb

theorem pair_infix_append_right_iff {ys : List Char} (ha : a ∉ ys) :
    [a, b] <:+: ys ++ xs ↔ [a, b] <:+: xs := by
  rw [pair_infix_append_iff]
  refine ⟨?_, fun h => .inr (.inl h)⟩
  rintro (h | h | ⟨h, -⟩)
  · exact absurd h (not_infix_pair ha)
  · exact h
  · exact absurd (List.mem_of_getLast? h) ha

/-- Stripping takes no pair of characters away that are no blanks. -/
theorem pair_infix_strip_iff (ha : isBlank a = false) (hb : isBlank b = false) (cs : List Char) :
    [a, b] <:+: strip cs ↔ [a, b] <:+: cs := by
  have hnot {c : Char} {blanks : List Char} (hc : isBlank c = false)
      (h : ∀ d ∈ blanks, isBlank d = true) : c ∉ blanks := fun hmem => by
    rw [h c hmem] at hc
    exact Bool.noConfusion hc
  obtain ⟨front, back, hcs, hfront, hback⟩ := exists_strip cs
  conv_rhs => rw [hcs]
  rw [pair_infix_append_left_iff (hnot ha hback) (hnot hb hback),
    pair_infix_append_right_iff (hnot ha hfront)]

end

end ChainTypings.Text
