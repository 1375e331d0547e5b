import ChainTypings.Sorting

/-!
# Sorting what is mapped

Sorting looks at the elements of a list only by comparing them. So sorting a list that is mapped
gives the same as sorting the list by what the comparison says of the images, and then mapping it
(`sort_map`). Each step of the sorting is shown to have this property, from the search for a cut up.
-/

namespace ChainTypings.Sorting

variable {α β : Type} (f : α → β)

/-! ## Cuts -/

section

variable {way : Way} {p : α → Bool} {far : Nat} {x : α} {xs after : List α}

theorem bisect_of_nil (h : xs.drop (way.middle xs.length) = []) : bisect way p xs = (xs, []) := by
  rw [bisect]
  split
  · rfl
  · next hx => cases h.symm.trans hx

theorem bisect_of_cons (h : xs.drop (way.middle xs.length) = x :: after) :
    bisect way p xs =
      if p x then
        (bisect way p after).map (fun front => xs.take (way.middle xs.length) ++ x :: front) id
      else
        (bisect way p (xs.take (way.middle xs.length))).map id
          (fun back => back ++ x :: after) := by
  rw [bisect]
  split
  · next hx => cases h.symm.trans hx
  · next hx =>
    obtain ⟨rfl, rfl⟩ := List.cons.inj (h.symm.trans hx)
    rfl

theorem leapFrom_of_nil (h : xs.drop far = []) : leapFrom way p far xs = bisect way p xs := by
  rw [leapFrom]
  split
  · rfl
  · next hx => cases h.symm.trans hx

theorem leapFrom_of_cons (h : xs.drop far = x :: after) :
    leapFrom way p far xs =
      if p x then
        (leapFrom way p (2 * far + 1) after).map (fun front => xs.take far ++ x :: front) id
      else (bisect way p (xs.take far)).map id (fun back => back ++ x :: after) := by
  rw [leapFrom]
  split
  · next hx => cases h.symm.trans hx
  · next hx =>
    obtain ⟨rfl, rfl⟩ := List.cons.inj (h.symm.trans hx)
    rfl

end

/-- Both parts of a cut, mapped. -/
def mapCut (parts : List α × List α) : List β × List β := parts.map (List.map f) (List.map f)

theorem mapCut_front (front : List α) (x : α) (parts : List α × List α) :
    mapCut f (parts.map (fun c => front ++ x :: c) id) =
      (mapCut f parts).map (fun c => front.map f ++ f x :: c) id := by
  simp [mapCut, Prod.map]

theorem mapCut_back (after : List α) (x : α) (parts : List α × List α) :
    mapCut f (parts.map id (fun c => c ++ x :: after)) =
      (mapCut f parts).map id (fun c => c ++ f x :: after.map f) := by
  simp [mapCut, Prod.map]

theorem bisect_map (way : Way) (p : β → Bool) (xs : List α) :
    bisect way p (xs.map f) = mapCut f (bisect way (fun a => p (f a)) xs) := by
  fun_induction bisect way (fun a => p (f a)) xs with
  | case1 xs h =>
    have hmapped : (xs.map f).drop (way.middle (xs.map f).length) = [] := by
      rw [List.length_map, ← List.map_drop, h]
      rfl
    rw [bisect_of_nil hmapped]
    rfl
  | case2 xs x after h hx ih =>
    have hmapped : (xs.map f).drop (way.middle (xs.map f).length) = f x :: after.map f := by
      rw [List.length_map, ← List.map_drop, h]
      rfl
    rw [bisect_of_cons hmapped, if_pos hx, ih, List.length_map, ← List.map_take, mapCut_front]
  | case3 xs x after h hx ih =>
    have hmapped : (xs.map f).drop (way.middle (xs.map f).length) = f x :: after.map f := by
      rw [List.length_map, ← List.map_drop, h]
      rfl
    rw [bisect_of_cons hmapped, if_neg hx, List.length_map, ← List.map_take, ih, mapCut_back]

theorem leapFrom_map (way : Way) (p : β → Bool) (far : Nat) (xs : List α) :
    leapFrom way p far (xs.map f) = mapCut f (leapFrom way (fun a => p (f a)) far xs) := by
  fun_induction leapFrom way (fun a => p (f a)) far xs with
  | case1 far xs h =>
    have hmapped : (xs.map f).drop far = [] := by
      rw [← List.map_drop, h]
      rfl
    rw [leapFrom_of_nil hmapped, bisect_map]
  | case2 far xs x after h hx ih =>
    have hmapped : (xs.map f).drop far = f x :: after.map f := by
      rw [← List.map_drop, h]
      rfl
    rw [leapFrom_of_cons hmapped, if_pos hx, ih, ← List.map_take, mapCut_front]
  | case3 far xs x after h hx =>
    have hmapped : (xs.map f).drop far = f x :: after.map f := by
      rw [← List.map_drop, h]
      rfl
    rw [leapFrom_of_cons hmapped, if_neg hx, ← List.map_take, bisect_map, mapCut_back]

theorem leap_map (way : Way) (p : β → Bool) (xs : List α) :
    leap way p (xs.map f) = mapCut f (leap way (fun a => p (f a)) xs) := by
  cases xs with
  | nil => rfl
  | cons x xs =>
    rw [List.map_cons, leap, leap, leapFrom_map]
    split
    · exact (mapCut_front f [] x _).symm
    · rfl

/-! ## Runs -/

variable (lt : β → β → Bool)

/-- What the comparison says of the images. -/
abbrev along (a b : α) : Bool := lt (f a) (f b)

theorem goOn_map (falls : Bool) (last : α) (xs : List α) :
    goOn lt falls (f last) (xs.map f) = mapCut f (goOn (along f lt) falls last xs) := by
  induction xs generalizing last with
  | nil => rfl
  | cons a as ih =>
    rw [List.map_cons, goOn, goOn, ih]
    split <;> rfl

theorem leadingRun_map (xs : List α) :
    leadingRun lt (xs.map f) = mapCut f (leadingRun (along f lt) xs) := by
  rcases xs with _ | ⟨a, _ | ⟨b, rest⟩⟩
  · rfl
  · rfl
  · rw [List.map_cons, List.map_cons, leadingRun, leadingRun]
    have h := goOn_map f lt (lt (f b) (f a)) a (b :: rest)
    rw [List.map_cons] at h
    simp only [h, mapCut, Prod.map]
    split <;> simp

theorem place_map (run : List α) (x : α) :
    place lt (run.map f) (f x) = (place (along f lt) run x).map f := by
  rw [place, place, bisect_map]
  simp [mapCut]

theorem foldl_place_map (xs run : List α) :
    (xs.map f).foldl (place lt) (run.map f) = (xs.foldl (place (along f lt)) run).map f := by
  induction xs generalizing run with
  | nil => rfl
  | cons x xs ih => rw [List.map_cons, List.foldl_cons, List.foldl_cons, place_map, ih]

theorem runs_of_cons {lt : α → α → Bool} {least : Nat} {x : α} {xs run rest : List α}
    (h : leadingRun lt (x :: xs) = (run, rest)) :
    runs lt least (x :: xs) =
      (rest.take (least - run.length)).foldl (place lt) run ::
        runs lt least (rest.drop (least - run.length)) := by
  rw [runs]
  split
  next hrun =>
    obtain ⟨rfl, rfl⟩ := Prod.mk.inj (hrun.symm.trans h)
    rfl

theorem runs_map (least : Nat) (xs : List α) :
    runs lt least (xs.map f) = (runs (along f lt) least xs).map (List.map f) := by
  fun_induction runs (along f lt) least xs with
  | case1 => simp [runs]
  | case2 x xs run rest h ih =>
    have hmapped : leadingRun lt (f x :: xs.map f) = (run.map f, rest.map f) := by
      rw [← List.map_cons, leadingRun_map, h]
      rfl
    rw [List.map_cons, runs_of_cons hmapped, List.length_map, ← List.map_take, ← List.map_drop,
      foldl_place_map, ih, List.map_cons]

/-! ## Merging -/

/-- The merged list, mapped, and the patience that is left. -/
def mapMerged (merged : List α × Nat) : List β × Nat := merged.map (List.map f) id

theorem mapMerged_front (front : List α) (x : α) (merged : List α × Nat) :
    mapMerged f (merged.map (fun zs => front ++ x :: zs) id) =
      (mapMerged f merged).map (fun zs => front.map f ++ f x :: zs) id := by
  simp [mapMerged, Prod.map]

section

variable {lt : α → α → Bool} {way : Way} {left patience : Nat} {pace : Pace} {s l : α}
  {short long chunk rest : List α}

theorem walk_of_takesLong (hshort : short ≠ []) (htakes : pace.takesLong way (lt l s) = true)
    (hleap : leap way (fun a => !lt l a) (s :: short) = (chunk, rest)) :
    walk lt way left patience pace (s :: short) (l :: long) =
      (walk lt way patience (pace.next true chunk.length patience).2
        (pace.next true chunk.length patience).1 rest long).map
          (fun zs => chunk ++ l :: zs) id := by
  obtain ⟨s', short, rfl⟩ := List.exists_cons_of_ne_nil hshort
  rw [walk]
  · rw [if_pos htakes]
    split
    next hchunk =>
      obtain ⟨rfl, rfl⟩ := Prod.mk.inj (hchunk.symm.trans hleap)
      rfl
  · simp

theorem walk_of_takesShort (hshort : short ≠ []) (htakes : ¬ pace.takesLong way (lt l s) = true)
    (hleap : leap way (fun a => lt a s) (l :: long) = (chunk, rest)) :
    walk lt way left patience pace (s :: short) (l :: long) =
      (walk lt way patience (pace.next false chunk.length patience).2
        (pace.next false chunk.length patience).1 short rest).map
          (fun zs => chunk ++ s :: zs) id := by
  obtain ⟨s', short, rfl⟩ := List.exists_cons_of_ne_nil hshort
  rw [walk]
  · rw [if_neg htakes]
    split
    next hchunk =>
      obtain ⟨rfl, rfl⟩ := Prod.mk.inj (hchunk.symm.trans hleap)
      rfl
  · simp

end

/-- A run with nothing left to walk through is given as it is. -/
theorem walk_nil_right {lt : α → α → Bool} (way : Way) (left patience : Nat) (pace : Pace)
    (short : List α) : walk lt way left patience pace short [] = (short, left) := by
  rcases short with _ | ⟨s, _ | ⟨s', short⟩⟩ <;> simp [walk]

theorem walk_map (way : Way) (left patience : Nat) (pace : Pace) (short long : List α) :
    walk lt way left patience pace (short.map f) (long.map f) =
      mapMerged f (walk (along f lt) way left patience pace short long) := by
  fun_induction walk (along f lt) way left patience pace short long with
  | case1 left patience pace long => simp [walk, mapMerged]
  | case2 left patience pace s long => simp [walk, mapMerged]
  | case3 left patience pace short => exact walk_nil_right way left patience pace _
  | case4 left patience pace s short l long hshort htakes chunk rest h _ _ hnext ih =>
    have hmapped : leap way (fun a => !lt (f l) a) (f s :: short.map f) =
        (chunk.map f, rest.map f) := by
      rw [← List.map_cons, leap_map, h]
      rfl
    have hne : short.map f ≠ [] := fun hnil => hshort (List.map_eq_nil_iff.1 hnil)
    rw [List.map_cons, List.map_cons, walk_of_takesLong hne htakes hmapped, List.length_map, hnext,
      ih, mapMerged_front]
  | case5 left patience pace s short l long hshort htakes chunk rest h _ _ hnext ih =>
    have hmapped : leap way (fun a => lt a (f s)) (f l :: long.map f) =
        (chunk.map f, rest.map f) := by
      rw [← List.map_cons, leap_map, h]
      rfl
    have hne : short.map f ≠ [] := fun hnil => hshort (List.map_eq_nil_iff.1 hnil)
    rw [List.map_cons, List.map_cons, walk_of_takesShort hne htakes hmapped, List.length_map, hnext,
      ih, mapMerged_front]

theorem interleave_map (way : Way) (patience : Nat) (short long : List α) :
    interleave lt way patience (short.map f) (long.map f) =
      mapMerged f (interleave (along f lt) way patience short long) := by
  cases long with
  | nil => rfl
  | cons l long =>
    rw [List.map_cons, interleave, interleave, walk_map]
    exact (mapMerged_front f [] l _).symm

theorem mergeShorter_map (patience : Nat) (xs ys : List α) :
    mergeShorter lt patience (xs.map f) (ys.map f) =
      mapMerged f (mergeShorter (along f lt) patience xs ys) := by
  rw [mergeShorter, mergeShorter, List.length_map, List.length_map]
  split
  · exact interleave_map f lt .up patience xs ys
  · rw [← List.map_reverse, ← List.map_reverse, interleave_map]
    simp [mapMerged, Prod.map]

theorem merge_map (patience : Nat) (xs ys : List α) :
    merge lt patience (xs.map f) (ys.map f) = mapMerged f (merge (along f lt) patience xs ys) := by
  cases ys with
  | nil => rfl
  | cons y ys =>
    rcases hfront : leap .up (fun a => !along f lt y a) xs with ⟨front, rest⟩
    have hmapped : leap .up (fun a => !lt (f y) a) (xs.map f) = (front.map f, rest.map f) := by
      rw [leap_map, hfront]
      rfl
    cases hlast : rest.getLast? with
    | none =>
      have hlast' : (rest.map f).getLast? = none := by rw [List.getLast?_map, hlast]; rfl
      rw [List.map_cons, merge_eq_of_none hmapped hlast', merge_eq_of_none hfront hlast]
      simp [mapMerged]
    | some x =>
      have hlast' : (rest.map f).getLast? = some (f x) := by rw [List.getLast?_map, hlast]; rfl
      rcases hback : leap .down (fun a => !along f lt a x) (y :: ys).reverse with ⟨back, sy⟩
      have hmapped' : leap .down (fun a => !lt a (f x)) (f y :: ys.map f).reverse =
          (back.map f, sy.map f) := by
        rw [← List.map_cons, ← List.map_reverse, leap_map, hback]
        rfl
      have hmerged := mergeShorter_map f lt patience rest sy.reverse
      rw [List.map_reverse] at hmerged
      rw [List.map_cons, merge_eq_of_some hmapped hlast' hmapped',
        merge_eq_of_some hfront hlast hback, hmerged]
      simp [mapMerged, Prod.map]

/-! ## The whole list -/

/-- The runs that wait, mapped. -/
def Stack.mapRuns (s : Stack α) : Stack β where
  waiting := s.waiting.map fun run => (run.1.map f, run.2)
  last := s.last.map f
  patience := s.patience

theorem collapse_map (depth : Nat) (waiting : List (List α × Nat)) (last : List α)
    (patience : Nat) :
    collapse lt depth (waiting.map fun run => (run.1.map f, run.2)) (last.map f) patience =
      (collapse (along f lt) depth waiting last patience).mapRuns f := by
  fun_induction collapse (along f lt) depth waiting last patience with
  | case1 => rfl
  | case2 run waiting last patience hdeeper merged next hm ih =>
    rw [List.map_cons, collapse, if_pos hdeeper, merge_map, hm]
    exact ih
  | case3 run waiting last patience hdeeper =>
    rw [List.map_cons, collapse, if_neg hdeeper]
    rfl

theorem foldl_start_map (start : Nat) (waiting : List (List α × Nat)) :
    (waiting.map fun run => (run.1.map f, run.2)).foldl (fun start run => start + run.1.length)
      start = waiting.foldl (fun start run => start + run.1.length) start := by
  simp [List.foldl_map]

theorem push_map (size : Nat) (s : Stack α) (run : List α) :
    (s.mapRuns f).push lt size (run.map f) = (s.push (along f lt) size run).mapRuns f := by
  simp only [Stack.push, Stack.mapRuns, foldl_start_map, List.length_map, collapse_map]
  rfl

theorem foldl_push_map (size : Nat) (rest : List (List α)) (s : Stack α) :
    (rest.map (List.map f)).foldl (Stack.push lt size) (s.mapRuns f) =
      (rest.foldl (Stack.push (along f lt) size) s).mapRuns f := by
  induction rest generalizing s with
  | nil => rfl
  | cons run rest ih => rw [List.map_cons, List.foldl_cons, List.foldl_cons, push_map, ih]

theorem mergeAll_map (waiting : List (List α)) (last : List α) (patience : Nat) :
    mergeAll lt (waiting.map (List.map f)) (last.map f) patience =
      (mergeAll (along f lt) waiting last patience).map f := by
  fun_induction mergeAll (along f lt) waiting last patience with
  | case1 => simp [mergeAll]
  | case2 run last patience =>
    rw [List.map_cons, List.map_nil, mergeAll, merge_map]
    rfl
  | case3 run before waiting last patience hshorter merged next hm ih =>
    rw [List.map_cons, List.map_cons, mergeAll, List.length_map, List.length_map, if_pos hshorter,
      merge_map, hm]
    exact ih
  | case4 run before waiting last patience hshorter merged next hm ih =>
    rw [List.map_cons, List.map_cons, mergeAll, List.length_map, List.length_map, if_neg hshorter,
      merge_map, hm]
    exact ih

/-- Sorting what is mapped is sorting by the images, and then mapping. -/
theorem sort_map (xs : List α) : sort lt (xs.map f) = (sort (along f lt) xs).map f := by
  have hruns := runs_map f lt (leastRun xs.length) xs
  unfold sort
  rw [List.length_map, hruns]
  cases runs (along f lt) (leastRun xs.length) xs with
  | nil => rfl
  | cons run rest =>
    have hpushed : (rest.map (List.map f)).foldl (Stack.push lt xs.length)
        ⟨[], run.map f, worthwhile⟩ =
          (rest.foldl (Stack.push (along f lt) xs.length) ⟨[], run, worthwhile⟩).mapRuns f :=
      foldl_push_map f lt xs.length rest ⟨[], run, worthwhile⟩
    simp only [List.map_cons, hpushed, ← mergeAll_map]
    simp [Stack.mapRuns, Function.comp_def]

end ChainTypings.Sorting
