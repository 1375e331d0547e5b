import ChainTypings.Proofs.Bracket.Check
import Mathlib.Data.List.Nodup

/-!
# Brackets and their partners

Two algorithms say where a bracket closes. The balance check keeps the opening brackets on a stack,
each with the closer it waits for, so that a closing bracket belongs to the one on top. The matcher
starts at an opening bracket and counts, whatever the kinds.

`pairs?` is the balance check with a memory: its stack holds indices, and it lists the pairs that
the stack takes off. It accepts what the check accepts (`isSome_pairs?`). In balanced text the
matcher stops at every opening bracket where the stack does (`closingIndex?_eq_of_isBalanced`).
-/

namespace ChainTypings.Bracket

/-- The pairs of brackets that a stack closes in a text whose first character has the index `start`,
each by its two indices; none if the brackets do not balance. The stack holds the indices of the
pending brackets with their closers, the innermost first. -/
def pairsFrom? : List (Nat × Char) → Nat → List Char → Option (List (Nat × Nat))
  | stack, _, [] => if stack.isEmpty then some [] else none
  | stack, start, c :: cs =>
    match closerOf? c with
    | some k => pairsFrom? ((start, k) :: stack) (start + 1) cs
    | none =>
      if isCloser c then
        match stack with
        | [] => none
        | (i, k) :: stack =>
          if k = c then (pairsFrom? stack (start + 1) cs).map ((i, start) :: ·) else none
      else pairsFrom? stack (start + 1) cs

/-- The pairs of brackets of a text. -/
def pairs? (cs : List Char) : Option (List (Nat × Nat)) := pairsFrom? [] 0 cs

/-! ## One character -/

section

variable {c : Char} (stack : List (Nat × Char)) (start : Nat) (cs : List Char)

theorem pairsFrom?_opener {k : Char} (hk : closerOf? c = some k) :
    pairsFrom? stack start (c :: cs) = pairsFrom? ((start, k) :: stack) (start + 1) cs := by
  rw [pairsFrom?.eq_def]
  simp only [hk]

theorem pairsFrom?_closer (ho : isOpener c = false) (hc : isCloser c = true) (i : Nat) :
    pairsFrom? ((i, c) :: stack) start (c :: cs) =
      (pairsFrom? stack (start + 1) cs).map ((i, start) :: ·) := by
  rw [pairsFrom?.eq_def]
  simp [closerOf?_eq_none ho, hc]

theorem pairsFrom?_plain (ho : isOpener c = false) (hc : isCloser c = false) :
    pairsFrom? stack start (c :: cs) = pairsFrom? stack (start + 1) cs := by
  rw [pairsFrom?.eq_def]
  simp [closerOf?_eq_none ho, hc]

end

section

variable {stack : List (Nat × Char)} {start : Nat} {c : Char} {cs rest : List Char}
  {ps : List (Nat × Nat)}

/-- What a character can do to a stack that closes all its brackets in the end. -/
theorem pairsFrom?_cons_cases (h : pairsFrom? stack start (c :: cs) = some ps) :
    (∃ k, closerOf? c = some k ∧ pairsFrom? ((start, k) :: stack) (start + 1) cs = some ps) ∨
    (∃ i stack' qs, isOpener c = false ∧ isCloser c = true ∧ stack = (i, c) :: stack' ∧
      pairsFrom? stack' (start + 1) cs = some qs ∧ ps = (i, start) :: qs) ∨
    (isOpener c = false ∧ isCloser c = false ∧ pairsFrom? stack (start + 1) cs = some ps) := by
  cases hk : closerOf? c with
  | some k =>
    rw [pairsFrom?_opener _ _ _ hk] at h
    exact .inl ⟨k, rfl, h⟩
  | none =>
    have ho : isOpener c = false := by rw [isOpener, hk]; rfl
    by_cases hc : isCloser c = true
    · rw [pairsFrom?.eq_def] at h
      simp only [hk, hc, if_true] at h
      cases stack with
      | nil => cases h
      | cons top stack =>
        obtain ⟨i, k⟩ := top
        dsimp only at h
        split at h
        · next hkc =>
          obtain ⟨qs, hqs, rfl⟩ := Option.map_eq_some_iff.1 h
          exact .inr (.inl ⟨i, stack, qs, ho, hc, by rw [hkc], hqs, rfl⟩)
        · cases h
    · rw [Bool.not_eq_true] at hc
      rw [pairsFrom?_plain _ _ _ ho hc] at h
      exact .inr (.inr ⟨ho, hc, h⟩)

/-- The stack of indices accepts what the stack of the balance check accepts. -/
theorem isSome_pairsFrom? (stack : List (Nat × Char)) (start : Nat) (cs : List Char) :
    (pairsFrom? stack start cs).isSome = closes (stack.map (·.2)) cs := by
  induction cs generalizing stack start with
  | nil => cases stack <;> rfl
  | cons c cs ih =>
    cases hk : closerOf? c with
    | some k => rw [pairsFrom?_opener _ _ _ hk, closes_opener _ _ hk, ih, List.map_cons]
    | none =>
      have ho : isOpener c = false := by rw [isOpener, hk]; rfl
      by_cases hc : isCloser c = true
      · cases stack with
        | nil => simp [pairsFrom?, closes, hk, hc]
        | cons top stack =>
          obtain ⟨i, k⟩ := top
          rw [List.map_cons]
          by_cases hkc : k = c
          · subst hkc
            rw [pairsFrom?_closer _ _ _ ho hc, closes_closer _ _ ho hc, Option.isSome_map, ih]
          · rw [closes_of_ne ho hc hkc]
            simp [pairsFrom?, hk, hc, hkc]
      · rw [Bool.not_eq_true] at hc
        rw [pairsFrom?_plain _ _ _ ho hc, closes_plain _ _ ho hc, ih]

theorem isSome_pairs? (cs : List Char) : (pairs? cs).isSome = isBalanced cs :=
  isSome_pairsFrom? [] 0 cs

/-! ## Passing over text -/

/-- Behind the front of a text some stack goes on, and what it closes are pairs of the text. -/
theorem exists_of_pairsFrom?_append (h : pairsFrom? stack start (cs ++ rest) = some ps) :
    ∃ stack' qs, pairsFrom? stack' (start + cs.length) rest = some qs ∧ qs <:+ ps := by
  induction cs generalizing stack start ps with
  | nil => exact ⟨stack, ps, h, List.suffix_rfl⟩
  | cons c cs ih =>
    rw [List.length_cons, Nat.add_comm cs.length, ← Nat.add_assoc]
    rcases pairsFrom?_cons_cases h with ⟨k, -, hrun⟩ | ⟨i, stack', qs, -, -, -, hrun, rfl⟩ |
      ⟨-, -, hrun⟩
    · exact ih hrun
    · obtain ⟨stack'', rs, hrest, hsuffix⟩ := ih hrun
      exact ⟨stack'', rs, hrest, hsuffix.trans (List.suffix_cons _ _)⟩
    · exact ih hrun

/-- Behind well-bracketed text the stack is what it was in front of it. -/
theorem exists_of_pairsFrom?_nested {outer : Char → Prop} (hn : Nested outer cs)
    (h : pairsFrom? stack start (cs ++ rest) = some ps) :
    ∃ qs, pairsFrom? stack (start + cs.length) rest = some qs ∧ qs <:+ ps := by
  induction hn generalizing stack start rest ps with
  | nil => exact ⟨ps, h, List.suffix_rfl⟩
  | plain ho hc _ _ ih =>
    rw [List.cons_append, pairsFrom?_plain _ _ _ ho hc] at h
    rw [List.length_cons, Nat.add_comm _ 1, ← Nat.add_assoc]
    exact ih h
  | @pair outer o k inside after hk _ _ ihi iha =>
    obtain ⟨hc, ho⟩ := isCloser_of_closerOf? hk
    rw [List.cons_append, List.append_assoc, List.cons_append, pairsFrom?_opener _ _ _ hk] at h
    obtain ⟨qs, hinside, hqs⟩ := ihi h
    -- the closing bracket finds on top of the stack what the opening one put there
    rw [pairsFrom?_closer _ _ _ ho hc] at hinside
    obtain ⟨rs, hafter, rfl⟩ := Option.map_eq_some_iff.1 hinside
    obtain ⟨ts, hrest, hts⟩ := iha hafter
    refine ⟨ts, ?_, hts.trans ((List.suffix_cons _ _).trans hqs)⟩
    rw [← hrest]
    congr 1
    simp only [List.length_cons, List.length_append]
    omega

/-- No bracket opens two pairs: a pair is opened by a bracket on the stack or by one of the text. -/
theorem nodup_of_pairsFrom? (hstack : ∀ p ∈ stack, p.1 < start) (hnodup : (stack.map (·.1)).Nodup)
    (h : pairsFrom? stack start cs = some ps) :
    (ps.map (·.1)).Nodup ∧ ∀ i ∈ ps.map (·.1), i ∈ stack.map (·.1) ∨ start ≤ i := by
  induction cs generalizing stack start ps with
  | nil =>
    unfold pairsFrom? at h
    split at h
    · obtain rfl := Option.some.inj h
      exact ⟨List.nodup_nil, fun i hi => absurd hi List.not_mem_nil⟩
    · cases h
  | cons c cs ih =>
    have later : ∀ p ∈ stack, p.1 < start + 1 := fun p hp => Nat.lt_succ_of_lt (hstack p hp)
    rcases pairsFrom?_cons_cases h with ⟨k, -, hrun⟩ | ⟨i, stack, qs, -, -, rfl, hrun, rfl⟩ |
      ⟨-, -, hrun⟩
    · have hfresh : start ∉ stack.map (·.1) := by
        intro hmem
        obtain ⟨p, hp, heq⟩ := List.mem_map.1 hmem
        exact absurd (hstack p hp) (by omega)
      obtain ⟨hps, hopened⟩ := ih (List.forall_mem_cons.2 ⟨Nat.lt_succ_self _, later⟩)
        (List.nodup_cons.2 ⟨hfresh, hnodup⟩) hrun
      refine ⟨hps, fun i hi => ?_⟩
      rcases hopened i hi with hmem | hle
      · rcases List.mem_cons.1 hmem with rfl | hmem
        · exact .inr (Nat.le_refl _)
        · exact .inl hmem
      · exact .inr (Nat.le_of_succ_le hle)
    · obtain ⟨hi, hlater⟩ := List.forall_mem_cons.1 later
      obtain ⟨hfresh, hnodup⟩ := List.nodup_cons.1 hnodup
      obtain ⟨hqs, hopened⟩ := ih hlater hnodup hrun
      have hlt : i < start := hstack (i, c) List.mem_cons_self
      refine ⟨List.nodup_cons.2 ⟨fun hmem => ?_, hqs⟩, ?_⟩
      · rcases hopened i hmem with hmem | hle
        · exact hfresh hmem
        · omega
      · intro j hj
        rcases List.mem_cons.1 hj with rfl | hj
        · exact .inl List.mem_cons_self
        · exact (hopened j hj).imp (List.mem_cons_of_mem _) Nat.le_of_succ_le
    · obtain ⟨hps, hopened⟩ := ih later hnodup hrun
      exact ⟨hps, fun i hi => (hopened i hi).imp_right Nat.le_of_succ_le⟩

end

/-- A bracket opens one pair. -/
theorem eq_of_mem_pairs? {cs : List Char} {ps : List (Nat × Nat)} (h : pairs? cs = some ps)
    {i j m : Nat} (hj : (i, j) ∈ ps) (hm : (i, m) ∈ ps) : m = j := by
  have hnodup := (nodup_of_pairsFrom? (by simp) (by simp) h).1
  exact (Prod.mk.inj (List.inj_on_of_nodup_map hnodup hm hj rfl)).2

/-! ## The matcher and the stack -/

section

variable {before rest : List Char} {c k : Char} {ps : List (Nat × Nat)}

/-- The stack takes an opening bracket off where well-bracketed text behind it ends. -/
theorem exists_of_pairs? (hk : closerOf? c = some k) (h : pairs? (before ++ c :: rest) = some ps) :
    ∃ inside after, rest = inside ++ k :: after ∧ Nested (fun _ => True) inside ∧
      (before.length, before.length + 1 + inside.length) ∈ ps := by
  obtain ⟨hcloser, hopener⟩ := isCloser_of_closerOf? hk
  obtain ⟨stack, qs, hrun, hqs⟩ := exists_of_pairsFrom?_append h
  rw [Nat.zero_add, pairsFrom?_opener _ _ _ hk] at hrun
  -- the stack goes on behind the opening bracket, so that its closer comes after balanced text
  have hcloses : closes ([] ++ k :: stack.map (·.2)) rest = true := by
    have haccepts := isSome_pairsFrom? ((before.length, k) :: stack) (before.length + 1) rest
    rw [hrun] at haccepts
    exact haccepts.symm
  obtain ⟨inside, after, rfl, hinside, -⟩ := exists_of_closes_append hcloses
  have hnested := nested_of_isBalanced hinside
  obtain ⟨rs, hrest, hrs⟩ := exists_of_pairsFrom?_nested hnested hrun
  rw [pairsFrom?_closer _ _ _ hopener hcloser] at hrest
  obtain ⟨ts, -, rfl⟩ := Option.map_eq_some_iff.1 hrest
  exact ⟨inside, after, rfl, hnested, hqs.subset (hrs.subset List.mem_cons_self)⟩

/-- The matcher stops where well-bracketed text behind an opening bracket ends. -/
theorem closingIndex?_of_nested (hk : closerOf? c = some k) {inside after : List Char}
    (h : Nested (fun _ => True) inside) :
    closingIndex? (before ++ c :: (inside ++ k :: after)) before.length =
      some (before.length + 1 + inside.length) := by
  obtain ⟨hcloser, hopener⟩ := isCloser_of_closerOf? hk
  have hdrop : (before ++ c :: (inside ++ k :: after)).drop (before.length + 1) =
      inside ++ k :: after := by
    rw [← List.drop_drop, List.drop_left, List.drop_one, List.tail_cons]
  rw [closingIndex?, hdrop, enclosed_of_nested h hcloser hopener]
  rfl

end

/-- In balanced text the matcher finds, for every opening bracket, a bracket of its kind, and it is
the one that the stack pairs with it. -/
theorem closingIndex?_eq_of_isBalanced {cs : List Char} (h : isBalanced cs = true) :
    ∃ ps, pairs? cs = some ps ∧ ∀ i c, cs[i]? = some c → isOpener c = true →
      ∃ j, closingIndex? cs i = some j ∧ cs[j]? = closerOf? c ∧ ∀ m, (i, m) ∈ ps ↔ m = j := by
  obtain ⟨ps, hps⟩ := Option.isSome_iff_exists.1 ((isSome_pairs? cs).trans h)
  refine ⟨ps, hps, fun i c hc ho => ?_⟩
  obtain ⟨k, hk⟩ := Option.isSome_iff_exists.1 ho
  obtain ⟨before, rest, rfl, rfl⟩ : ∃ before rest, cs = before ++ c :: rest ∧ before.length = i := by
    obtain ⟨hi, rfl⟩ := List.getElem?_eq_some_iff.1 hc
    refine ⟨cs.take i, cs.drop (i + 1), ?_, List.length_take_of_le (Nat.le_of_lt hi)⟩
    rw [← List.drop_eq_getElem_cons hi, List.take_append_drop]
  obtain ⟨inside, after, rfl, hnested, hmem⟩ := exists_of_pairs? hk hps
  refine ⟨_, closingIndex?_of_nested hk hnested, ?_, fun m =>
    ⟨fun hm => eq_of_mem_pairs? hps hmem hm, fun hm => hm ▸ hmem⟩⟩
  rw [hk, Nat.add_assoc, List.getElem?_append_right (Nat.le_add_right _ _), Nat.add_sub_cancel_left,
    Nat.add_comm 1, List.getElem?_cons_succ, List.getElem?_append_right (Nat.le_refl _),
    Nat.sub_self, List.getElem?_cons_zero]

/-- The brackets of an array in a tuple among the arguments of a generic type. -/
theorem closingIndex?_eq_of_isBalanced_arguments :
    let cs := "M<(A,[{};4]),V<B>>".toList
    isBalanced cs = true ∧ ∃ ps, pairs? cs = some ps ∧
      (closingIndex? cs 1 = some 17 ∧ ∀ m, (1, m) ∈ ps ↔ m = 17) ∧
      (closingIndex? cs 5 = some 10 ∧ ∀ m, (5, m) ∈ ps ↔ m = 10) := by
  intro cs
  have hbalanced : isBalanced cs = true := by decide +kernel
  obtain ⟨ps, hps, hpairs⟩ := closingIndex?_eq_of_isBalanced hbalanced
  have partner : ∀ i j c, cs[i]? = some c → isOpener c = true → closingIndex? cs i = some j →
      closingIndex? cs i = some j ∧ ∀ m, (i, m) ∈ ps ↔ m = j := by
    intro i j c hc ho hj
    obtain ⟨j', hj', -, hmem⟩ := hpairs i c hc ho
    obtain rfl := Option.some.inj (hj'.symm.trans hj)
    exact ⟨hj, hmem⟩
  exact ⟨hbalanced, ps, hps, partner 1 17 '<' (by decide +kernel) rfl (by decide +kernel),
    partner 5 10 '[' (by decide +kernel) rfl (by decide +kernel)⟩

end ChainTypings.Bracket
