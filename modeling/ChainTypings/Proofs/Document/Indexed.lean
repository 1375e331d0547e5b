import ChainTypings.Proofs.Document.Alike
import ChainTypings.Proofs.Document.Entries
import ChainTypings.Proofs.Sorting.Mapped
import Mathlib.Data.List.Nodup

/-!
# Entries with distinct indices

Entries of which each has an integer as its index, and no two the same, make a registry
(`ofShapes_eq`): it holds each entry under its index, and lists them in the order of the indices,
which is one order only (`shapes?_eq`, `sorted_eq_of_perm`). So the order in which the entries are
given plays no part: what they make is alike in any order (`alike_of_perm`).
-/

namespace ChainTypings

open Json (Key)

/-- The integer that is the index of a shape; zero if it is none. -/
def Shape.place (s : Shape) : Int :=
  match s.head.lookupIndex with
  | .int n => n
  | _ => 0

/-- The index of each shape is an integer, and no two have the same. -/
structure AreIndexed (shapes : List Shape) : Prop where
  integer : ∀ s ∈ shapes, s.head.lookupIndex = .int s.place
  distinct : (shapes.map Shape.place).Nodup

namespace AreIndexed

variable {shapes shapes' : List Shape}

theorem perm (h : AreIndexed shapes) (hperm : shapes'.Perm shapes) : AreIndexed shapes' :=
  ⟨fun s hs => h.integer s (hperm.mem_iff.1 hs), (hperm.map Shape.place).nodup_iff.2 h.distinct⟩

/-- One more shape has an index of its own if none of the others has it. -/
theorem concat (h : AreIndexed shapes) {s : Shape} (hs : s.head.lookupIndex = .int s.place)
    (hfree : ∀ t ∈ shapes, t.place ≠ s.place) : AreIndexed (shapes ++ [s]) := by
  constructor
  · intro t ht
    rcases List.mem_append.1 ht with ht | ht
    · exact h.integer t ht
    · obtain rfl := List.mem_singleton.1 ht
      exact hs
  · rw [List.map_append, List.nodup_append]
    refine ⟨h.distinct, List.nodup_singleton _, ?_⟩
    intro m hm n hn
    obtain ⟨t, ht, rfl⟩ := List.mem_map.1 hm
    obtain rfl := List.mem_singleton.1 hn
    exact hfree t ht

theorem eq_of_place_eq (h : AreIndexed shapes) {s t : Shape} (hs : s ∈ shapes) (ht : t ∈ shapes)
    (hplace : s.place = t.place) : s = t :=
  List.inj_on_of_nodup_map h.distinct hs ht hplace

end AreIndexed

/-- No key is that of two integers. -/
theorem Json.Key.eq_of_same {n n' : Int} {k : Key} (h : Key.same (.number n 0) k = true)
    (h' : Key.same (.number n' 0) k = true) : n = n' := by
  cases k with
  | number m e =>
    have heq : Key.lowered n 0 (min 0 e) = Key.lowered n' 0 (min 0 e) :=
      (of_decide_eq_true h).trans (of_decide_eq_true h').symm
    have hpos : ((1 <<< (0 - min 0 e).toNat : Nat) : Int) ≠ 0 := by
      rw [Nat.one_shiftLeft]
      exact Int.ofNat_ne_zero.2 (Nat.ne_of_gt (Nat.two_pow_pos _))
    exact Int.eq_of_mul_eq_mul_right hpos heq
  | absent => simp [same] at h
  | infinite negative => simp [same] at h
  | nan => simp [same] at h
  | text s => simp [same] at h

namespace Registry

variable {shapes shapes' done : List Shape} {known : List String}

/-- A shape under its index. -/
def entryOf (s : Shape) : Key × Shape := (.number s.place 0, s)

theorem find?_map_entryOf (shapes : List Shape) (key : Key) :
    find? (shapes.map entryOf) key = shapes.find? fun s => Key.same (.number s.place 0) key := by
  rw [find?, List.find?_map, Option.map_map]
  exact Option.map_id'

/-- What is found under a key is the one shape whose index it is. -/
theorem find?_eq_some_iff (h : AreIndexed shapes) {key : Key} {s : Shape} :
    find? (shapes.map entryOf) key = some s ↔
      s ∈ shapes ∧ Key.same (.number s.place 0) key = true := by
  rw [find?_map_entryOf]
  constructor
  · intro hfound
    have hsame := List.find?_some hfound
    exact ⟨List.mem_of_find?_eq_some hfound, hsame⟩
  · rintro ⟨hs, hsame⟩
    cases hfound : shapes.find? fun s => Key.same (.number s.place 0) key with
    | none => exact absurd hsame (List.find?_eq_none.1 hfound s hs)
    | some t =>
      have hsame' := List.find?_some hfound
      have hplace := Key.eq_of_same hsame' hsame
      rw [h.eq_of_place_eq (List.mem_of_find?_eq_some hfound) hs hplace]

/-! ## Making a registry -/

/-- Shapes with distinct indices are added, whatever follows them. -/
theorem addEntries_append (h : AreIndexed (done ++ shapes)) (rest : List Shape) :
    addEntries (done.map entryOf) (shapes ++ rest) =
      addEntries ((done ++ shapes).map entryOf) rest := by
  induction shapes generalizing done with
  | nil => rw [List.append_nil, List.nil_append]
  | cons s shapes ih =>
    have hindex : s.head.lookupIndex = .int s.place := h.integer s (by simp)
    have hfree : find? (done.map entryOf) (.number s.place 0) = none := by
      rw [find?_map_entryOf, List.find?_eq_none]
      intro t ht hsame
      rw [Key.same_int, decide_eq_true_eq] at hsame
      have hnodup := h.distinct
      rw [List.map_append, List.nodup_append] at hnodup
      exact hnodup.2.2 _ (List.mem_map_of_mem ht) _ (List.mem_map_of_mem List.mem_cons_self) hsame
    have hshift : AreIndexed (done ++ [s] ++ shapes) := by rwa [List.append_assoc]
    have hrest := ih hshift
    rw [List.map_append, List.append_assoc] at hrest
    rw [List.cons_append, addEntries]
    simp only [hindex, Json.key?, hfree]
    exact hrest

/-- Entries with distinct indices make a registry of each under its index. -/
theorem ofShapes_eq (h : AreIndexed shapes) (known : List String) :
    ofShapes shapes known = .ok
      { entries := shapes.map entryOf
        known := Category.builtins ++ known ++
          (shapes.map entryOf).filterMap fun e => e.2.head.alias? } := by
  have hadd := addEntries_append (show AreIndexed ([] ++ shapes) from h) []
  rw [List.append_nil] at hadd
  rw [ofShapes, show addEntries [] shapes = .ok (shapes.map entryOf) from hadd]

/-! ## The order of the indices -/

/-- Whether the index of a shape is less than that of another. -/
def placeBefore (a b : Shape) : Bool := decide (a.place < b.place)

theorem isOrder_placeBefore : Sorting.IsOrder placeBefore := by
  constructor
  · intro a b hab
    simp only [placeBefore, decide_eq_true_eq, decide_eq_false_iff_not] at hab ⊢
    omega
  · intro a b c hba hcb
    simp only [placeBefore, decide_eq_false_iff_not] at hba hcb ⊢
    omega

/-- The shapes in the order of their indices. -/
def sorted (shapes : List Shape) : List Shape := Sorting.sort placeBefore shapes

theorem perm_sorted (shapes : List Shape) : (sorted shapes).Perm shapes := Sorting.perm_sort _ _

theorem shapes?_eq {r : Registry} (h : r.entries = shapes.map entryOf) :
    r.shapes? = some (sorted shapes) := by
  have hordered : r.shapes?.isSome = true := by
    refine shapes?_isSome fun e he => ?_
    rw [h] at he
    obtain ⟨s, _, rfl⟩ := List.mem_map.1 he
    exact ⟨s.place, rfl⟩
  have hcompare : Sorting.along entryOf entryBefore = placeBefore := by
    funext a b
    simp only [Sorting.along, entryBefore, entryOf, Key.before?_int]
    rfl
  unfold shapes? at hordered ⊢
  split at hordered
  · next hisOrdered =>
    rw [if_pos hisOrdered, h, Sorting.sort_map, hcompare, List.map_map]
    exact congrArg some (List.map_id _)
  · cases hordered

/-- Of two shapes the one in front has the lesser index. -/
theorem ascending_sorted (h : AreIndexed shapes) :
    (sorted shapes).Pairwise fun a b => a.place < b.place := by
  have hascending := Sorting.ascending_sort isOrder_placeBefore shapes
  have hnodup : (sorted shapes).Pairwise fun a b => a.place ≠ b.place :=
    List.pairwise_map.1 (h.perm (perm_sorted shapes)).distinct
  refine hascending.imp₂ ?_ hnodup
  intro a b hab hne
  simp only [placeBefore, decide_eq_false_iff_not] at hab
  omega

/-- There is one order of the indices. -/
theorem sorted_eq_of_perm (h : AreIndexed shapes) (hperm : shapes'.Perm shapes) :
    sorted shapes' = sorted shapes := by
  refine List.Perm.eq_of_pairwise ?_ (ascending_sorted (h.perm hperm)) (ascending_sorted h)
    ((perm_sorted shapes').trans (hperm.trans (perm_sorted shapes).symm))
  intro a b _ _ hab hba
  exact absurd hab (Int.lt_asymm hba)

/-! ## Entries in another order -/

/-- What is found under an index does not depend on the order of the entries. -/
theorem find?_eq_of_perm (h : AreIndexed shapes) (hperm : shapes'.Perm shapes) (key : Key) :
    find? (shapes'.map entryOf) key = find? (shapes.map entryOf) key := by
  refine Option.ext fun s => ?_
  rw [find?_eq_some_iff (h.perm hperm), find?_eq_some_iff h, hperm.mem_iff]

/-- Registries of the same entries in different orders are alike. -/
theorem alike_of_perm (h : AreIndexed shapes) (hperm : shapes'.Perm shapes) {r r' : Registry}
    (hentries : r.entries = shapes.map entryOf) (hentries' : r'.entries = shapes'.map entryOf) :
    r'.Alike r := by
  constructor
  · intro index
    unfold Scope.lookup
    rw [hentries, hentries']
    split
    · rfl
    · rw [find?_eq_of_perm h hperm]
  · rw [hentries, hentries', List.length_map, List.length_map, hperm.length_eq]

end Registry

end ChainTypings
