import ChainTypings.Proofs.Bracket.Check

/-!
# Splitting and joining

`outside` lists the characters of a text that stand outside all brackets. The top-level segments of
a text are balanced texts that show no separator there and make up the text with separators
between them: this is a `Segmentation`. A balanced text has exactly one, and splitting gives it
without the empty segments (`splitTopLevel_and_join`). So splitting undoes joining, and joining
undoes splitting where no segment is empty.
-/

namespace ChainTypings.Bracket

/-- The characters outside all brackets, when `depth` brackets are open in front of the text. -/
def outside : Nat → List Char → List Char
  | _, [] => []
  | depth, c :: cs =>
    if isOpener c then outside (depth + 1) cs
    else if isCloser c then outside (depth - 1) cs
    else if depth = 0 then c :: outside depth cs
    else outside depth cs

/-- The top-level segments of a text, empty ones included. -/
structure Segmentation (s : Char) (cs : List Char) (ps : List (List Char)) : Prop where
  ne_nil : ps ≠ []
  joined : [s].intercalate ps = cs
  balanced : ∀ p ∈ ps, isBalanced p = true
  unseparated : ∀ p ∈ ps, s ∉ outside 0 p

/-! ## Characters outside the brackets -/

section

variable {c : Char} (depth : Nat) (cs : List Char)

theorem outside_opener (ho : isOpener c = true) :
    outside depth (c :: cs) = outside (depth + 1) cs := by
  rw [outside, if_pos ho]

theorem outside_closer (ho : isOpener c = false) (hc : isCloser c = true) :
    outside depth (c :: cs) = outside (depth - 1) cs := by
  rw [outside, ho, hc]
  rfl

theorem outside_plain_zero (ho : isOpener c = false) (hc : isCloser c = false) :
    outside 0 (c :: cs) = c :: outside 0 cs := by
  rw [outside, ho, hc]
  rfl

theorem outside_plain_succ (ho : isOpener c = false) (hc : isCloser c = false) :
    outside (depth + 1) (c :: cs) = outside (depth + 1) cs := by
  rw [outside, ho, hc]
  rfl

end

/-- Inside a bracket nothing stands outside all brackets. -/
theorem outside_append_of_nested {outer : Char → Prop} {cs : List Char} (h : Nested outer cs)
    (depth : Nat) (rest : List Char) :
    outside (depth + 1) (cs ++ rest) = outside (depth + 1) rest := by
  induction h generalizing depth rest with
  | nil => rfl
  | plain ho hc _ _ ih => rw [List.cons_append, outside_plain_succ _ _ ho hc, ih]
  | pair hk _ _ ihi iha =>
    obtain ⟨hc, ho⟩ := isCloser_of_closerOf? hk
    rw [List.cons_append, List.append_assoc, List.cons_append,
      outside_opener _ _ (isOpener_of_closerOf? hk), ihi, outside_closer _ _ ho hc,
      Nat.add_sub_cancel, iha]

/-- Behind an opening bracket the text goes on outside where the bracket closes. -/
theorem outside_pair {o k : Char} (hk : closerOf? o = some k) {inside : List Char}
    (h : Nested (fun _ => True) inside) (after : List Char) :
    outside 0 (o :: (inside ++ k :: after)) = outside 0 after := by
  obtain ⟨hc, ho⟩ := isCloser_of_closerOf? hk
  rw [outside_opener _ _ (isOpener_of_closerOf? hk), outside_append_of_nested h,
    outside_closer _ _ ho hc, Nat.sub_self]

/-- Well-bracketed text is balanced text, and what passes the predicate are the characters outside
the brackets. -/
theorem nested_iff {outer : Char → Prop} {cs : List Char} :
    Nested outer cs ↔ isBalanced cs = true ∧ ∀ c ∈ outside 0 cs, outer c := by
  constructor
  · intro h
    refine ⟨isBalanced_of_nested h, ?_⟩
    induction h with
    | nil => exact fun c hc => absurd hc List.not_mem_nil
    | plain ho hc hp _ ih =>
      rw [outside_plain_zero _ ho hc]
      exact List.forall_mem_cons.2 ⟨hp, ih⟩
    | pair hk hi _ _ iha =>
      rw [outside_pair hk hi]
      exact iha
  · rintro ⟨hbalanced, houter⟩
    have hnested := nested_of_isBalanced hbalanced
    clear hbalanced
    generalize hany : (fun _ : Char => True) = any at hnested
    induction hnested with
    | nil => exact .nil
    | plain ho hc _ _ ih =>
      rw [outside_plain_zero _ ho hc] at houter
      obtain ⟨hp, houter⟩ := List.forall_mem_cons.1 houter
      exact .plain ho hc hp (ih houter hany)
    | pair hk hi _ _ iha =>
      rw [outside_pair hk hi] at houter
      exact .pair hk hi (iha houter hany)

theorem part_iff {s : Char} {p : List Char} :
    Part s p ↔ isBalanced p = true ∧ s ∉ outside 0 p := by
  rw [Part, nested_iff]
  refine and_congr_right fun _ => ⟨fun h hs => h s hs rfl, fun h c hc heq => h (heq ▸ hc)⟩

/-! ## Segments -/

/-- Well-bracketed text has top-level segments. -/
theorem exists_parts (s : Char) {outer : Char → Prop} {cs : List Char} (h : Nested outer cs) :
    ∃ p ps, [s].intercalate (p :: ps) = cs ∧ ∀ q ∈ p :: ps, Part s q := by
  -- text in front of all segments lies in front of the first
  have front : ∀ (xs p : List Char) (ps : List (List Char)),
      [s].intercalate ((xs ++ p) :: ps) = xs ++ [s].intercalate (p :: ps) := by
    intro xs p ps
    cases ps <;> simp [List.intercalate_cons_cons]
  induction h with
  | nil => exact ⟨[], [], rfl, by simpa using Nested.nil⟩
  | @plain outer c cs ho hc _ _ ih =>
    obtain ⟨p, ps, rfl, hps⟩ := ih
    by_cases hs : c = s
    · subst hs
      refine ⟨[], p :: ps, by rw [List.intercalate_cons_cons]; rfl, ?_⟩
      exact List.forall_mem_cons.2 ⟨.nil, hps⟩
    · obtain ⟨hp, hps⟩ := List.forall_mem_cons.1 hps
      exact ⟨[c] ++ p, ps, front [c] p ps, List.forall_mem_cons.2 ⟨.plain ho hc hs hp, hps⟩⟩
  | @pair outer o k inside after hk hi _ _ iha =>
    obtain ⟨p, ps, rfl, hps⟩ := iha
    obtain ⟨hp, hps⟩ := List.forall_mem_cons.1 hps
    refine ⟨o :: (inside ++ k :: p), ps, ?_, List.forall_mem_cons.2 ⟨.pair hk hi hp, hps⟩⟩
    have := front (o :: (inside ++ [k])) p ps
    simpa using this

section

variable {s : Char} {cs : List Char} {ps : List (List Char)}

theorem Segmentation.part (h : Segmentation s cs ps) : ∀ p ∈ ps, Part s p :=
  fun p hp => part_iff.2 ⟨h.balanced p hp, h.unseparated p hp⟩

theorem exists_segmentation (s : Char) (h : isBalanced cs = true) :
    ∃ ps, Segmentation s cs ps := by
  obtain ⟨p, ps, rfl, hps⟩ := exists_parts s (nested_of_isBalanced h)
  exact ⟨p :: ps, List.cons_ne_nil p ps, rfl, fun q hq => (part_iff.1 (hps q hq)).1,
    fun q hq => (part_iff.1 (hps q hq)).2⟩

variable (hs : isOpener s = false) (hs' : isCloser s = false)

include hs hs'

/-- The splitter goes through a text segment by segment. -/
theorem Segmentation.segments_eq (h : Segmentation s cs ps) : segments [s] 0 cs = ps := by
  rw [← h.joined, segments_intercalate hs hs' h.ne_nil h.part]

/-- Splitting at a character that is no bracket undoes joining: of non-empty balanced texts that
show the separator in brackets only, joined by separators, it gives back these texts. Of a balanced
text it gives the only top-level segments that the text has, in order and without the empty ones.
So each part is non-empty and balanced and shows no separator outside its brackets, and if no
segment is empty, the parts joined are the text. -/
theorem splitTopLevel_and_join :
    (∀ ps : List (List Char), (∀ p ∈ ps, p ≠ [] ∧ isBalanced p = true ∧ s ∉ outside 0 p) →
      splitTopLevel [s] ([s].intercalate ps) = ps) ∧
    ∀ cs : List Char, isBalanced cs = true →
      (∀ p ∈ splitTopLevel [s] cs, p ≠ [] ∧ isBalanced p = true ∧ s ∉ outside 0 p) ∧
      ∃ ps, Segmentation s cs ps ∧ (∀ qs, Segmentation s cs qs → qs = ps) ∧
        splitTopLevel [s] cs = ps.filter (!·.isEmpty) ∧
        ([] ∉ ps → [s].intercalate (splitTopLevel [s] cs) = cs) := by
  constructor
  · intro ps h
    exact splitTopLevel_intercalate hs hs' (fun p hp => (h p hp).1)
      fun p hp => part_iff.2 (h p hp).2
  · intro cs h
    obtain ⟨ps, hps⟩ := exists_segmentation s h
    have hsplit : splitTopLevel [s] cs = ps.filter (!·.isEmpty) := by
      rw [splitTopLevel, hps.segments_eq hs hs']
    refine ⟨fun p hp => ?_, ps, hps, fun qs hqs => ?_, hsplit, fun hne => ?_⟩
    · rw [hsplit, List.mem_filter] at hp
      exact ⟨by simpa using hp.2, hps.balanced p hp.1, hps.unseparated p hp.1⟩
    · rw [← hqs.segments_eq hs hs', hps.segments_eq hs hs']
    · have hall : ∀ p ∈ ps, (!p.isEmpty) = true := by
        intro p hp
        cases p with
        | nil => exact absurd hp hne
        | cons c p => rfl
      rw [hsplit, List.filter_eq_self.2 hall, hps.joined]

end

/-- Arguments with brackets of three kinds, and a text with empty segments. -/
theorem splitTopLevel_and_join_comma :
    isOpener ',' = false ∧ isCloser ',' = false ∧
      splitTopLevel [','] ([','].intercalate
        ["M<A,B>".toList, "(A,[B,C])".toList]) = ["M<A,B>".toList, "(A,[B,C])".toList] ∧
      ∃ ps, Segmentation ',' ",(A,B),,C".toList ps ∧
        splitTopLevel [','] ",(A,B),,C".toList = ps.filter (!·.isEmpty) := by
  obtain ⟨hjoin, hsplit⟩ := splitTopLevel_and_join (s := ',') rfl rfl
  obtain ⟨-, ps, hps, -, heq, -⟩ := hsplit ",(A,B),,C".toList (by decide +kernel)
  exact ⟨rfl, rfl, hjoin _ (by decide +kernel), ps, hps, heq⟩

end ChainTypings.Bracket
