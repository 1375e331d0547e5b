import ChainTypings.Shape.Basic

/-!
# The heads of a shape

Induction on shapes with a hypothesis for each shape directly beneath, and the heads at all depths
of a shape.
-/

namespace ChainTypings.Shape

/-- Induction on shapes, with a hypothesis for each shape of a group. -/
@[elab_as_elim, induction_eliminator]
theorem induction {motive : Shape → Prop} (leaf : ∀ h, motive (.leaf h))
    (single : ∀ h c, motive c → motive (.single h c))
    (group : ∀ h cs, (∀ c ∈ cs, motive c) → motive (.group h cs)) : ∀ s, motive s
  | .leaf h => leaf h
  | .single h c => single h c (induction leaf single group c)
  | .group h cs => group h cs fun c _ => induction leaf single group c

/-- Induction on shapes, with a hypothesis for each shape directly beneath. -/
theorem induction_children {motive : Shape → Prop}
    (step : ∀ s : Shape, (∀ c ∈ s.children, motive c) → motive s) (s : Shape) : motive s := by
  induction s with
  | leaf h => exact step _ fun c hc => absurd hc List.not_mem_nil
  | single h c ih => exact step _ fun d hd => List.mem_singleton.1 hd ▸ ih
  | group h cs ih => exact step _ ih

mutual

/-- The heads of a shape and of all shapes beneath. -/
def heads : Shape → List Head
  | .leaf h => [h]
  | .single h c => h :: heads c
  | .group h cs => h :: headsEach cs

/-- The heads of several shapes and of all shapes beneath them. -/
def headsEach : List Shape → List Head
  | [] => []
  | c :: cs => heads c ++ headsEach cs

end

theorem head_mem_heads (s : Shape) : s.head ∈ s.heads := by
  cases s with
  | leaf h => exact List.mem_cons_self
  | single h c => exact List.mem_cons_self
  | group h cs => exact List.mem_cons_self

theorem headsEach_eq_flatMap (cs : List Shape) : headsEach cs = cs.flatMap heads := by
  induction cs with
  | nil => rfl
  | cons c cs ih => rw [headsEach, ih, List.flatMap_cons]

/-- The heads beneath a shape are among its heads. -/
theorem mem_heads_of_mem_children {s c : Shape} (hc : c ∈ s.children) {h : Head}
    (hh : h ∈ c.heads) : h ∈ s.heads := by
  cases s with
  | leaf k => exact absurd hc List.not_mem_nil
  | single k d =>
    obtain rfl := List.mem_singleton.1 hc
    exact List.mem_cons_of_mem _ hh
  | group k cs =>
    rw [heads, headsEach_eq_flatMap]
    exact List.mem_cons_of_mem _ (List.mem_flatMap.2 ⟨c, hc, hh⟩)

/-- Without its declared name a shape has the same heads beneath. -/
theorem heads_anonymous (s : Shape) :
    s.anonymous.heads = { s.head with lookupName := .null } :: s.heads.tail := by
  cases s <;> rfl

end ChainTypings.Shape
