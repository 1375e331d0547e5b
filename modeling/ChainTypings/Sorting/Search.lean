import ChainTypings.Sorting.Order

/-!
# Where a run is cut

An ascending run is cut in two where a test that its front passes begins to fail. `bisect` looks at
the middle and goes on in one half; `leap` looks at the head, and at elements twice as far away each
time, and bisects what lies between the last two. `splits_bisect` and `splits_leap` hold for every
test and every list: the last element in front of the cut passes, and the first behind it fails.
-/

namespace ChainTypings.Sorting

variable {α : Type}

/-- The way in which a run is read: up from its head, or down from its back. -/
inductive Way where
  | up
  | down
  deriving DecidableEq

/-- The index of the middle of some elements; of two in the middle, the later one of the run, in
whichever way it is read. -/
def Way.middle : Way → Nat → Nat
  | up, n => n / 2
  | down, n => (n - 1) / 2

/-- Cuts a list by halving. -/
def bisect (way : Way) (p : α → Bool) (xs : List α) : List α × List α :=
  match _h : xs.drop (way.middle xs.length) with
  | [] => (xs, [])
  | x :: after =>
    if p x then
      (bisect way p after).map (fun front => xs.take (way.middle xs.length) ++ x :: front) id
    else
      (bisect way p (xs.take (way.middle xs.length))).map id (fun back => back ++ x :: after)
termination_by xs.length
decreasing_by
  all_goals
    have hl := congrArg List.length _h
    simp only [List.length_drop, List.length_cons, List.length_take] at hl ⊢
    omega

/-- Cuts a list of which all in front is known to pass: looks past the given number of elements, and
past one more than twice as many after them. -/
def leapFrom (way : Way) (p : α → Bool) (far : Nat) (xs : List α) : List α × List α :=
  match _h : xs.drop far with
  | [] => bisect way p xs
  | x :: after =>
    if p x then
      (leapFrom way p (2 * far + 1) after).map (fun front => xs.take far ++ x :: front) id
    else
      (bisect way p (xs.take far)).map id (fun back => back ++ x :: after)
termination_by xs.length
decreasing_by
  have hl := congrArg List.length _h
  simp only [List.length_drop, List.length_cons] at hl ⊢
  omega

/-- Cuts a list near its head in few looks. -/
def leap (way : Way) (p : α → Bool) : List α → List α × List α
  | [] => ([], [])
  | x :: xs => if p x then (leapFrom way p 0 xs).map (x :: ·) id else ([], x :: xs)

/-! ## What a cut is -/

/-- Two parts of a list, cut where a test begins to fail. -/
structure Splits (p : α → Bool) (xs : List α) (parts : List α × List α) : Prop where
  append : parts.1 ++ parts.2 = xs
  last : ∀ a, parts.1.getLast? = some a → p a = true
  head : ∀ a, parts.2.head? = some a → p a = false

theorem Splits.of_pass {p : α → Bool} {front after xs : List α} {x : α} {parts : List α × List α}
    (hxs : front ++ x :: after = xs) (hx : p x = true) (h : Splits p after parts) :
    Splits p xs (parts.map (fun c => front ++ x :: c) id) where
  append := by
    rw [← hxs, ← h.append]
    simp
  last a ha := by
    simp only [Prod.map_fst, List.getLast?_append, List.getLast?_cons] at ha
    cases hl : parts.1.getLast? with
    | none => simp_all
    | some b => exact h.last a (by simp_all)
  head a ha := h.head a ha

theorem Splits.of_fail {p : α → Bool} {front after xs : List α} {x : α} {parts : List α × List α}
    (hxs : front ++ x :: after = xs) (hx : p x = false) (h : Splits p front parts) :
    Splits p xs (parts.map id (fun c => c ++ x :: after)) where
  append := by
    rw [← hxs, ← h.append]
    simp
  last a ha := h.last a ha
  head a ha := by
    simp only [Prod.map_snd, List.head?_append, List.head?_cons] at ha
    cases hl : parts.2.head? with
    | none => simp_all
    | some b => exact h.head a (by simp_all)

theorem take_append_of_drop {xs after : List α} {n : Nat} {x : α} (h : xs.drop n = x :: after) :
    xs.take n ++ x :: after = xs :=
  h ▸ List.take_append_drop n xs

theorem splits_bisect (way : Way) (p : α → Bool) (xs : List α) :
    Splits p xs (bisect way p xs) := by
  fun_induction bisect way p xs with
  | case1 xs h =>
    have hl := congrArg List.length h
    rw [List.length_drop, List.length_nil] at hl
    have hm : way.middle xs.length ≤ xs.length / 2 := by
      cases way <;> simp only [Way.middle] <;> omega
    have : xs = [] := List.eq_nil_of_length_eq_zero (by omega)
    subst this
    exact ⟨rfl, by simp, by simp⟩
  | case2 xs x after h hx ih => exact ih.of_pass (take_append_of_drop h) hx
  | case3 xs x after h hx ih => exact ih.of_fail (take_append_of_drop h) (by simpa using hx)

theorem splits_leapFrom (way : Way) (p : α → Bool) (far : Nat) (xs : List α) :
    Splits p xs (leapFrom way p far xs) := by
  fun_induction leapFrom way p far xs with
  | case1 => exact splits_bisect way p _
  | case2 far xs x after h hx ih => exact ih.of_pass (take_append_of_drop h) hx
  | case3 far xs x after h hx =>
    exact (splits_bisect way p _).of_fail (take_append_of_drop h) (by simpa using hx)

theorem splits_leap (way : Way) (p : α → Bool) (xs : List α) : Splits p xs (leap way p xs) := by
  fun_cases leap way p xs with
  | case1 => exact ⟨rfl, by simp, by simp⟩
  | case2 x xs hx =>
    exact (splits_leapFrom way p 0 xs).of_pass (show [] ++ x :: xs = x :: xs from rfl) hx
  | case3 x xs hx => exact ⟨rfl, by simp, by simpa using hx⟩

theorem length_snd_leap_le (way : Way) (p : α → Bool) (xs : List α) :
    (leap way p xs).2.length ≤ xs.length := by
  have h := congrArg List.length (splits_leap way p xs).append
  rw [List.length_append] at h
  omega

/-! ## Cuts of an ascending list -/

variable {lt : α → α → Bool} {p : α → Bool} {xs : List α} {parts : List α × List α}

theorem Splits.ascending (hs : Splits p xs parts) (hx : Ascending lt xs) :
    Ascending lt parts.1 ∧ Ascending lt parts.2 ∧ ∀ a ∈ parts.1, ∀ b ∈ parts.2, lt b a = false :=
  List.pairwise_append.1 (hs.append ▸ hx)

/-- If what passes does not come after an element, then no element of the first part does. -/
theorem Splits.fst_before (hs : Splits p xs parts) (h : IsOrder lt) (hx : Ascending lt xs) {y : α}
    (hp : ∀ a, p a = true → lt y a = false) : ∀ a ∈ parts.1, lt y a = false :=
  h.of_getLast (hs.ascending hx).1 fun a ha => hp a (hs.last a ha)

/-- If what fails does not come before an element, then no element of the second part does. -/
theorem Splits.snd_after (hs : Splits p xs parts) (h : IsOrder lt) (hx : Ascending lt xs) {y : α}
    (hp : ∀ a, p a = false → lt a y = false) : ∀ a ∈ parts.2, lt a y = false :=
  h.of_head (hs.ascending hx).2.1 fun a ha => hp a (hs.head a ha)

end ChainTypings.Sorting
