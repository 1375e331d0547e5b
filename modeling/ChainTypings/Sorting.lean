import ChainTypings.Sorting.Merge
import ChainTypings.Sorting.Run

/-!
# Sorting by merging runs

A list is sorted by a comparison: it is cut into runs that ascend, and neighbouring runs are merged.
Which two come first is settled by the boundary between them: each boundary has a depth in the tree
of halves of the whole list, and of two neighbouring boundaries the deeper one is merged away first.

`perm_sort` says that nothing is lost and `ascending_sort` that the result ascends, if the
comparison is an order. Where it is none, as with an element that compares with no other, the result
is still the one that these steps give.
-/

namespace ChainTypings.Sorting

variable {α : Type}

/-- The depth of the boundary between a run, which begins at an index and has a length, and the next
one: beyond one halving of the whole list, how often its parts can be halved on with the middles of
both runs still in one part. -/
def boundaryDepth (size start length next : Nat) : Nat :=
  let middle := 2 * start + length
  (List.range (size.log2 + 2)).findIdx fun depth =>
    (middle <<< depth) / size ≠ ((middle + length + next) <<< depth) / size

/-- Runs that wait to be merged: the last one and those in front of it, the nearest first, each with
the depth of the boundary behind it. -/
structure Stack (α : Type) where
  waiting : List (List α × Nat)
  last : List α
  patience : Nat

/-- Merges the last run with those in front of it, as far as their boundaries are deeper than the
one behind it. -/
def collapse (lt : α → α → Bool) (depth : Nat) :
    List (List α × Nat) → List α → Nat → Stack α
  | [], last, patience => ⟨[], last, patience⟩
  | run :: waiting, last, patience =>
    if depth < run.2 then
      let (last, patience) := merge lt patience run.1 last
      collapse lt depth waiting last patience
    else ⟨run :: waiting, last, patience⟩

/-- Puts a run behind the last one. -/
def Stack.push (lt : α → α → Bool) (size : Nat) (s : Stack α) (run : List α) : Stack α :=
  let start := s.waiting.foldl (fun start run => start + run.1.length) 0
  let depth := boundaryDepth size start s.last.length run.length
  -- of two boundaries that are left, the one behind is the deeper
  let s := collapse lt depth s.waiting s.last s.patience
  { waiting := (s.last, depth) :: s.waiting, last := run, patience := s.patience }

/-- Merges all the runs, of which those in front of the last are given nearest first: the last two,
or the two in front of the last if the farther of them is shorter than the last. -/
def mergeAll (lt : α → α → Bool) : List (List α) → List α → Nat → List α
  | [], last, _ => last
  | [run], last, patience => (merge lt patience run last).1
  | run :: before :: waiting, last, patience =>
    if before.length < last.length then
      let (run, patience) := merge lt patience before run
      mergeAll lt (run :: waiting) last patience
    else
      let (last, patience) := merge lt patience run last
      mergeAll lt (before :: waiting) last patience
termination_by waiting => waiting.length

/-- Sorts a list. -/
def sort (lt : α → α → Bool) (xs : List α) : List α :=
  match runs lt (leastRun xs.length) xs with
  | [] => []
  | run :: rest =>
    let s := rest.foldl (Stack.push lt xs.length) ⟨[], run, worthwhile⟩
    mergeAll lt (s.waiting.map (·.1)) s.last s.patience

/-! ## Nothing is lost -/

/-- All that waits. -/
def Stack.elements (s : Stack α) : List α := (s.waiting.map (·.1)).flatten ++ s.last

theorem perm_collapse (lt : α → α → Bool) (depth : Nat) (waiting : List (List α × Nat))
    (last : List α) (patience : Nat) :
    (collapse lt depth waiting last patience).elements.Perm
      ((waiting.map (·.1)).flatten ++ last) := by
  fun_induction collapse lt depth waiting last patience with
  | case1 => exact List.Perm.refl _
  | case2 run waiting last patience _ merged next hm ih =>
    have hp := perm_merge lt patience run.1 last
    rw [hm] at hp
    rw [List.map_cons, List.flatten_cons, List.append_assoc]
    exact ih.trans ((hp.append_left _).trans (List.perm_append_comm_assoc _ _ _))
  | case3 => exact List.Perm.refl _

theorem perm_push (lt : α → α → Bool) (size : Nat) (s : Stack α) (run : List α) :
    (s.push lt size run).elements.Perm (s.elements ++ run) := by
  refine List.Perm.append_right run ?_
  refine List.Perm.trans List.perm_append_comm ?_
  exact perm_collapse lt _ s.waiting s.last s.patience

theorem perm_foldl_push (lt : α → α → Bool) (size : Nat) (rest : List (List α)) (s : Stack α) :
    (rest.foldl (Stack.push lt size) s).elements.Perm (s.elements ++ rest.flatten) := by
  induction rest generalizing s with
  | nil => rw [List.flatten_nil, List.append_nil]; rfl
  | cons run rest ih =>
    refine (ih _).trans ?_
    rw [List.flatten_cons, ← List.append_assoc]
    exact (perm_push lt size s run).append_right _

theorem perm_mergeAll (lt : α → α → Bool) (waiting : List (List α)) (last : List α)
    (patience : Nat) : (mergeAll lt waiting last patience).Perm (waiting.flatten ++ last) := by
  fun_induction mergeAll lt waiting last patience with
  | case1 => exact List.Perm.refl _
  | case2 run last patience =>
    rw [List.flatten_cons, List.flatten_nil, List.append_nil]
    exact perm_merge lt patience run last
  | case3 run before waiting last patience _ merged next hm ih =>
    have hp := perm_merge lt patience before run
    rw [hm] at hp
    refine ih.trans (List.Perm.append_right last ?_)
    rw [List.flatten_cons, List.flatten_cons, List.flatten_cons, ← List.append_assoc run]
    exact (hp.trans List.perm_append_comm).append_right _
  | case4 run before waiting last patience _ merged next hm ih =>
    have hp := perm_merge lt patience run last
    rw [hm] at hp
    refine ih.trans ((hp.append_left _).trans ((List.perm_append_comm_assoc _ _ _).trans ?_))
    rw [List.flatten_cons, List.flatten_cons, List.flatten_cons, List.append_assoc,
      List.append_assoc, List.append_assoc]

/-- Sorting changes the order alone. -/
theorem perm_sort (lt : α → α → Bool) (xs : List α) : (sort lt xs).Perm xs := by
  have hp := perm_flatten_runs lt (leastRun xs.length) xs
  unfold sort
  split
  · next h => rwa [h] at hp
  · next run rest h =>
    rw [h, List.flatten_cons] at hp
    exact ((perm_mergeAll ..).trans (perm_foldl_push ..)).trans hp

/-! ## The result ascends -/

/-- All runs that wait ascend. -/
structure Stack.Ascends (lt : α → α → Bool) (s : Stack α) : Prop where
  waiting : ∀ run ∈ s.waiting, Ascending lt run.1
  last : Ascending lt s.last

variable {lt : α → α → Bool}

theorem ascends_collapse (h : IsOrder lt) (depth : Nat) (waiting : List (List α × Nat))
    (last : List α) (patience : Nat) (hw : ∀ run ∈ waiting, Ascending lt run.1)
    (hl : Ascending lt last) : (collapse lt depth waiting last patience).Ascends lt := by
  fun_induction collapse lt depth waiting last patience with
  | case1 => exact ⟨hw, hl⟩
  | case2 run waiting last patience _ merged next hm ih =>
    have ha := ascending_merge h patience (hw run List.mem_cons_self) hl
    rw [hm] at ha
    exact ih (fun r hr => hw r (List.mem_cons_of_mem run hr)) ha
  | case3 => exact ⟨hw, hl⟩

theorem Stack.Ascends.push (h : IsOrder lt) (size : Nat) {s : Stack α} (hs : s.Ascends lt)
    {run : List α} (hr : Ascending lt run) : (s.push lt size run).Ascends lt := by
  have hc (depth : Nat) := ascends_collapse h depth s.waiting s.last s.patience hs.waiting hs.last
  exact ⟨List.forall_mem_cons.2 ⟨(hc _).last, (hc _).waiting⟩, hr⟩

theorem ascends_foldl_push (h : IsOrder lt) (size : Nat) (rest : List (List α)) {s : Stack α}
    (hs : s.Ascends lt) (hr : ∀ run ∈ rest, Ascending lt run) :
    (rest.foldl (Stack.push lt size) s).Ascends lt := by
  induction rest generalizing s with
  | nil => exact hs
  | cons run rest ih =>
    exact ih (hs.push h size (hr run List.mem_cons_self))
      fun r hm => hr r (List.mem_cons_of_mem run hm)

theorem ascending_mergeAll (h : IsOrder lt) (waiting : List (List α)) (last : List α)
    (patience : Nat) (hw : ∀ run ∈ waiting, Ascending lt run) (hl : Ascending lt last) :
    Ascending lt (mergeAll lt waiting last patience) := by
  fun_induction mergeAll lt waiting last patience with
  | case1 => exact hl
  | case2 run last patience =>
    exact ascending_merge h patience (hw run List.mem_cons_self) hl
  | case3 run before waiting last patience _ merged next hm ih =>
    obtain ⟨hr, hb, hw⟩ := List.forall_mem_cons.1 hw |>.imp_right List.forall_mem_cons.1
    have ha := ascending_merge h patience hb hr
    rw [hm] at ha
    exact ih (List.forall_mem_cons.2 ⟨ha, hw⟩) hl
  | case4 run before waiting last patience _ merged next hm ih =>
    have ha := ascending_merge h patience (hw run List.mem_cons_self) hl
    rw [hm] at ha
    exact ih (fun r hr => hw r (List.mem_cons_of_mem run hr)) ha

/-- Sorting by an order gives a list that ascends. -/
theorem ascending_sort (h : IsOrder lt) (xs : List α) : Ascending lt (sort lt xs) := by
  have hruns := ascending_of_mem_runs h (leastRun xs.length) xs
  unfold sort
  split
  · exact List.Pairwise.nil
  · next run rest hr =>
    rw [hr] at hruns
    obtain ⟨hrun, hrest⟩ := List.forall_mem_cons.1 hruns
    have hs : Stack.Ascends lt (rest.foldl (Stack.push lt xs.length) ⟨[], run, worthwhile⟩) :=
      ascends_foldl_push h xs.length rest ⟨by simp, hrun⟩ hrest
    refine ascending_mergeAll h _ _ _ (fun r hm => ?_) hs.last
    obtain ⟨w, hw, rfl⟩ := List.mem_map.1 hm
    exact hs.waiting w hw

end ChainTypings.Sorting
