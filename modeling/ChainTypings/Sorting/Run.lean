import ChainTypings.Sorting.Search

/-!
# Runs

A list is cut into runs that ascend: what rises already is taken as it is, what falls is turned
round, and a run that is too short is made longer by putting the next elements into their places.
`perm_flatten_runs` says that nothing is lost, and `ascending_of_mem_runs` that each run ascends if
the comparison is an order. An element that compares with no other stays where the search for its
place ends.
-/

namespace ChainTypings.Sorting

variable {α : Type}

/-- The elements that go on rising after one, or go on falling, and the rest. -/
def goOn (lt : α → α → Bool) (falls : Bool) : α → List α → List α × List α
  | _, [] => ([], [])
  | last, a :: as =>
    if lt a last = falls then
      let (run, rest) := goOn lt falls a as
      (a :: run, rest)
    else ([], a :: as)

/-- The leading run, ascending, and the rest. -/
def leadingRun (lt : α → α → Bool) : List α → List α × List α
  | a :: b :: rest =>
    let falls := lt b a
    let (run, rest) := goOn lt falls a (b :: rest)
    (if falls then (a :: run).reverse else a :: run, rest)
  | xs => (xs, [])

theorem goOn_append (lt : α → α → Bool) (falls : Bool) (last : α) (xs : List α) :
    (goOn lt falls last xs).1 ++ (goOn lt falls last xs).2 = xs := by
  induction xs generalizing last with
  | nil => rfl
  | cons a as ih =>
    unfold goOn
    split
    · simpa using ih a
    · rfl

theorem perm_leadingRun (lt : α → α → Bool) (xs : List α) :
    ((leadingRun lt xs).1 ++ (leadingRun lt xs).2).Perm xs := by
  unfold leadingRun
  split
  · next a b rest =>
    have h := goOn_append lt (lt b a) a (b :: rest)
    dsimp only
    split
    · refine ((List.reverse_perm _).append_right _).trans ?_
      rw [List.cons_append, h]
    · rw [List.cons_append, h]
  · rw [List.append_nil]

theorem leadingRun_cons_ne_nil (lt : α → α → Bool) (x : α) (xs : List α) :
    (leadingRun lt (x :: xs)).1 ≠ [] := by
  cases xs with
  | nil => simp [leadingRun]
  | cons y xs =>
    unfold leadingRun
    dsimp only
    split <;> simp

theorem length_snd_leadingRun_le (lt : α → α → Bool) (x : α) (xs : List α) :
    (leadingRun lt (x :: xs)).2.length ≤ xs.length := by
  have hp := (perm_leadingRun lt (x :: xs)).length_eq
  have hn := List.length_pos_iff.2 (leadingRun_cons_ne_nil lt x xs)
  rw [List.length_append, List.length_cons] at hp
  omega

/-- Puts an element into its place in an ascending list, behind those that are equal to it. -/
def place (lt : α → α → Bool) (run : List α) (x : α) : List α :=
  let (front, back) := bisect .up (fun a => !lt x a) run
  front ++ x :: back

/-- The least length of a run but the last. A list of fewer than 64 elements is one run; a longer
one is cut into a power of two of runs, or just fewer, of 32 to 64 elements. -/
def leastRun (size : Nat) : Nat :=
  let halvings := size.log2 - 5
  if size < 64 then size else (size + (1 <<< halvings) - 1) >>> halvings

/-- The runs of a list, each but the last at least as long as given. -/
def runs (lt : α → α → Bool) (least : Nat) : List α → List (List α)
  | [] => []
  | x :: xs =>
    match _h : leadingRun lt (x :: xs) with
    | (run, rest) =>
      (rest.take (least - run.length)).foldl (place lt) run ::
        runs lt least (rest.drop (least - run.length))
termination_by xs => xs.length
decreasing_by
  have hl : rest.length ≤ xs.length := by
    have := length_snd_leadingRun_le lt x xs
    rwa [_h] at this
  rw [List.length_drop, List.length_cons]
  omega

/-! ## Nothing is lost -/

theorem perm_place (lt : α → α → Bool) (run : List α) (x : α) :
    (place lt run x).Perm (x :: run) := by
  have h := (splits_bisect .up (fun a => !lt x a) run).append
  unfold place
  dsimp only
  refine List.perm_middle.trans ?_
  rw [h]

theorem perm_foldl_place (lt : α → α → Bool) (xs run : List α) :
    (xs.foldl (place lt) run).Perm (run ++ xs) := by
  induction xs generalizing run with
  | nil => rw [List.append_nil]; rfl
  | cons x xs ih =>
    refine (ih _).trans ?_
    refine ((perm_place lt run x).append_right xs).trans ?_
    exact List.perm_middle.symm

theorem perm_flatten_runs (lt : α → α → Bool) (least : Nat) (xs : List α) :
    (runs lt least xs).flatten.Perm xs := by
  fun_induction runs lt least xs with
  | case1 => exact List.Perm.nil
  | case2 x xs run rest h ih =>
    have hp := perm_leadingRun lt (x :: xs)
    rw [h] at hp
    rw [List.flatten_cons]
    refine ((perm_foldl_place lt _ run).append ih).trans ?_
    rw [List.append_assoc, List.take_append_drop]
    exact hp

/-! ## Each run ascends -/

variable {lt : α → α → Bool}

theorem ascending_goOn (h : IsOrder lt) (last : α) (xs : List α) :
    Ascending lt (last :: (goOn lt false last xs).1) := by
  induction xs generalizing last with
  | nil => simp [goOn]
  | cons a as ih =>
    unfold goOn
    split
    · next ha =>
      refine List.pairwise_cons.2 ⟨fun b hb => ?_, ih a⟩
      rcases List.mem_cons.1 hb with rfl | hb
      · exact ha
      · exact h.trans _ _ _ ha ((List.pairwise_cons.1 (ih a)).1 b hb)
    · simp

theorem ascending_goOn_falling (h : IsOrder lt) (last : α) (xs : List α) :
    Ascending (fun a b => lt b a) (last :: (goOn lt true last xs).1) := by
  induction xs generalizing last with
  | nil => simp [goOn]
  | cons a as ih =>
    unfold goOn
    split
    · next ha =>
      refine List.pairwise_cons.2 ⟨fun b hb => ?_, ih a⟩
      rcases List.mem_cons.1 hb with rfl | hb
      · exact h.asymm _ _ ha
      · exact h.trans _ _ _ ((List.pairwise_cons.1 (ih a)).1 b hb) (h.asymm _ _ ha)
    · simp

theorem ascending_leadingRun (h : IsOrder lt) (xs : List α) :
    Ascending lt (leadingRun lt xs).1 := by
  match xs with
  | [] => exact List.Pairwise.nil
  | [a] => exact List.pairwise_singleton _ a
  | a :: b :: rest =>
    unfold leadingRun
    dsimp only
    cases hf : lt b a with
    | false => exact ascending_goOn h a _
    | true => exact List.pairwise_reverse.2 (ascending_goOn_falling h a _)

theorem ascending_place (h : IsOrder lt) {run : List α} (hr : Ascending lt run) (x : α) :
    Ascending lt (place lt run x) := by
  have hs := splits_bisect .up (fun a => !lt x a) run
  obtain ⟨hf, hb, _⟩ := hs.ascending hr
  exact h.ascending_middle hf hb (hs.fst_before h hr fun a ha => by simpa using ha)
    (hs.snd_after h hr fun a ha => h.asymm _ _ (by simpa using ha))

theorem ascending_foldl_place (h : IsOrder lt) (xs : List α) {run : List α}
    (hr : Ascending lt run) : Ascending lt (xs.foldl (place lt) run) := by
  induction xs generalizing run with
  | nil => exact hr
  | cons x xs ih => exact ih (ascending_place h hr x)

theorem ascending_of_mem_runs (h : IsOrder lt) (least : Nat) (xs : List α) :
    ∀ run ∈ runs lt least xs, Ascending lt run := by
  fun_induction runs lt least xs with
  | case1 => simp
  | case2 x xs run rest hl ih =>
    have hr := ascending_leadingRun h (x :: xs)
    rw [hl] at hr
    exact List.forall_mem_cons.2 ⟨ascending_foldl_place h _ hr, ih⟩

end ChainTypings.Sorting
