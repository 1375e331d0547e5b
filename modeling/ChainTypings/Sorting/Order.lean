/-!
# Orders

A comparison says whether an element goes before another. It is an order if any two elements can be
placed by it, and a list ascends if no element goes before one that stands in front of it.
-/

namespace ChainTypings.Sorting

variable {α : Type}

/-- A comparison by which any two elements can be ordered. -/
structure IsOrder (lt : α → α → Bool) : Prop where
  asymm : ∀ a b, lt a b = true → lt b a = false
  trans : ∀ a b c, lt b a = false → lt c b = false → lt c a = false

theorem IsOrder.irrefl {lt : α → α → Bool} (h : IsOrder lt) (a : α) : lt a a = false := by
  cases ha : lt a a with
  | false => rfl
  | true => exact ha ▸ h.asymm a a ha

/-- The order read from its other end. -/
theorem IsOrder.flip {lt : α → α → Bool} (h : IsOrder lt) : IsOrder fun a b => lt b a :=
  ⟨fun a b => h.asymm b a, fun a b c hab hbc => h.trans c b a hbc hab⟩

/-- No element of the list goes before one in front of it. -/
abbrev Ascending (lt : α → α → Bool) (xs : List α) : Prop := xs.Pairwise fun a b => lt b a = false

theorem ascending_flip_reverse {lt : α → α → Bool} {xs : List α} :
    Ascending (fun a b => lt b a) xs.reverse ↔ Ascending lt xs :=
  List.pairwise_reverse

/-- An element after the head of an ascending list comes after whatever the head comes after. -/
theorem IsOrder.of_head {lt : α → α → Bool} (h : IsOrder lt) {xs : List α} (hx : Ascending lt xs)
    {y : α} (hy : ∀ a, xs.head? = some a → lt a y = false) : ∀ a ∈ xs, lt a y = false := by
  cases xs with
  | nil => simp
  | cons x xs =>
    intro a ha
    have hxy := hy x rfl
    rcases List.mem_cons.1 ha with rfl | ha
    · exact hxy
    · exact h.trans _ _ _ hxy ((List.pairwise_cons.1 hx).1 a ha)

/-- An element in front of the last of an ascending list comes before whatever that one comes
before. -/
theorem IsOrder.of_getLast {lt : α → α → Bool} (h : IsOrder lt) {xs : List α}
    (hx : Ascending lt xs) {y : α} (hy : ∀ a, xs.getLast? = some a → lt y a = false) :
    ∀ a ∈ xs, lt y a = false := by
  intro a ha
  have hr := List.mem_reverse.2 ha
  refine h.flip.of_head (ascending_flip_reverse.2 hx) (fun b hb => hy b ?_) a hr
  rw [← List.head?_reverse]
  exact hb

/-- An element goes between two ascending lists if none of the first comes after it and none of the
second before it. -/
theorem IsOrder.ascending_middle {lt : α → α → Bool} (h : IsOrder lt) {front back : List α} {x : α}
    (hf : Ascending lt front) (hb : Ascending lt back) (hfx : ∀ a ∈ front, lt x a = false)
    (hxb : ∀ b ∈ back, lt b x = false) : Ascending lt (front ++ x :: back) := by
  refine List.pairwise_append.2 ⟨hf, List.pairwise_cons.2 ⟨hxb, hb⟩, fun a ha b hm => ?_⟩
  rcases List.mem_cons.1 hm with rfl | hm
  · exact hfx a ha
  · exact h.trans _ _ _ (hfx a ha) (hxb b hm)

end ChainTypings.Sorting
