import ChainTypings.Proofs.Import.Lines
import Mathlib.Data.List.Nodup

/-!
# Stable sorting by a name

What is put in the order of its names keeps its order where names are equal (`SortedBy`). If no two
have the same name, there is one such order, whatever the order was before (`SortedBy.eq_of_perm`).
-/

namespace ChainTypings

variable {α : Type}

/-- Sorting leaves the elements of a class whose members may stand in any order as they stood. -/
theorem filter_mergeSort {le : α → α → Bool}
    (htrans : ∀ a b c, le a b = true → le b c = true → le a c = true)
    (htotal : ∀ a b, (le a b || le b a) = true) {q : α → Bool}
    (hq : ∀ a b, q a = true → q b = true → le a b = true) (xs : List α) :
    (xs.mergeSort le).filter q = xs.filter q := by
  have hequal : (xs.filter q).Pairwise fun a b => le a b = true :=
    List.pairwise_of_forall_mem_list fun a ha b hb =>
      hq a b (List.mem_filter.1 ha).2 (List.mem_filter.1 hb).2
  have hsub := (List.sublist_mergeSort htrans htotal hequal List.filter_sublist).filter q
  simp only [List.filter_filter, Bool.and_self] at hsub
  exact (hsub.eq_of_length ((List.mergeSort_perm xs le).symm.filter q).length_eq).symm

/-- The second list has the elements of the first in ascending order of their names, and those of
one name in the order of the first. -/
structure SortedBy (name : α → String) (xs ys : List α) : Prop where
  perm : ys.Perm xs
  ascending : ys.Pairwise fun a b => name a ≤ name b
  stable : ∀ n, (ys.filter fun a => name a = n) = xs.filter fun a => name a = n

variable {name : α → String} {xs xs' ys ys' : List α}

theorem sortedBy_mergeSort (name : α → String) (xs : List α) :
    SortedBy name xs (xs.mergeSort fun a b => ImportDef.textLE (name a) (name b)) := by
  have htrans (a b c : α) (hab : ImportDef.textLE (name a) (name b) = true)
      (hbc : ImportDef.textLE (name b) (name c) = true) :
      ImportDef.textLE (name a) (name c) = true := ImportDef.textLE_trans _ _ _ hab hbc
  have htotal (a b : α) :
      (ImportDef.textLE (name a) (name b) || ImportDef.textLE (name b) (name a)) = true :=
    ImportDef.textLE_total _ _
  refine ⟨List.mergeSort_perm _ _, ?_, fun n => filter_mergeSort htrans htotal ?_ xs⟩
  · exact (List.pairwise_mergeSort htrans htotal xs).imp fun hab => ImportDef.textLE_iff.1 hab
  · intro a b ha hb
    have hab : name a = name b := (of_decide_eq_true ha).trans (of_decide_eq_true hb).symm
    exact ImportDef.textLE_iff.2 (hab ▸ String.le_refl _)

/-- Names of which no two are the same stand in one order. -/
theorem SortedBy.eq_of_perm (h : SortedBy name xs ys) (h' : SortedBy name xs' ys')
    (hperm : xs'.Perm xs) (hnodup : (xs.map name).Nodup) : ys' = ys := by
  refine List.Perm.eq_of_pairwise (fun a b ha hb hab hba => ?_) h'.ascending h.ascending
    (h'.perm.trans (hperm.trans h.perm.symm))
  have hnames : (ys.map name).Nodup := (h.perm.map name).nodup_iff.2 hnodup
  have ha' : a ∈ ys := h.perm.mem_iff.2 (hperm.mem_iff.1 (h'.perm.mem_iff.1 ha))
  exact List.inj_on_of_nodup_map hnames ha' hb (String.le_antisymm hab hba)

end ChainTypings
