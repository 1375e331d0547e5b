import ChainTypings.Proofs.Shape.Heads
import ChainTypings.Render.Shape

/-!
# Shapes and their parts

Rendering a shape mentions how it is referred to and applies the rule of its tag to the parts,
which are the shapes directly beneath, ready to be rendered (`renderShape_eq`, `mem_beneath`). So
what holds of a rule whenever it holds of the parts, holds of all shapes by induction.
-/

namespace ChainTypings

/-- The parts, however many there are. -/
def Parts.toList : Parts → List Part
  | none => []
  | one p => [p]
  | many ps => ps

namespace Scope

/-- A list is refused, or it is the list of the parts. -/
theorem listed_cases (shape : Shape) (parts : Parts) :
    listed shape parts = .fail (.unsupported shape .expectedList) ∨
      listed shape parts = .done parts.toList := by
  cases parts with
  | none => exact .inr rfl
  | one p => exact .inl rfl
  | many ps => exact .inr rfl

/-! ## Indirections -/

theorem exists_mem_of_lookup {r : Registry} {index : Json} {entry : Shape}
    (h : lookup r index = .ok entry) : ∃ k, (k, entry) ∈ r.entries := by
  unfold lookup at h
  split at h
  · cases h
  · split at h
    · next hfind =>
      cases h
      obtain ⟨k, hk, _⟩ := Registry.exists_mem_of_find? hfind
      exact ⟨k, hk⟩
    · cases h

/-- An indirection leads to an entry of the registry. -/
theorem exists_mem_of_target {s : Scope} {h : Head} {entry : Shape}
    (ht : s.target h = .ok entry) : ∃ k, (k, entry) ∈ s.registry.entries := by
  unfold target at ht
  split at ht
  · exact exists_mem_of_lookup ht
  · cases ht

/-! ## The shapes beneath as parts -/

variable (s : Scope) (follow : Shape → Trail Expr)

/-- What stands beneath a shape, ready to be rendered. -/
def beneath : Shape → Parts
  | .leaf _ => .none
  | .single _ c => .one ⟨c.head, s.renderShape follow c⟩
  | .group _ cs => .many (s.renderParts follow cs)

theorem renderShape_eq (shape : Shape) (hint : Option String) :
    s.renderShape follow shape hint = (s.mention shape.head.reference).andThen fun _ =>
      s.rule follow shape (s.beneath follow shape) hint := by
  cases shape with
  | leaf h => rfl
  | single h c => rfl
  | group h cs => rfl

theorem renderParts_eq_map (cs : List Shape) :
    s.renderParts follow cs = cs.map fun c => ⟨c.head, s.renderShape follow c⟩ := by
  induction cs with
  | nil => rfl
  | cons c cs ih => rw [renderParts, ih, List.map_cons]

/-- The shapes directly beneath, to be rendered as told. -/
def partsBy (render : Shape → Option String → Trail Expr) : Shape → Parts
  | .leaf _ => .none
  | .single _ c => .one ⟨c.head, render c⟩
  | .group _ cs => .many (cs.map fun c => ⟨c.head, render c⟩)

theorem beneath_eq_partsBy (shape : Shape) :
    s.beneath follow shape = partsBy (s.renderShape follow) shape := by
  cases shape with
  | leaf h => rfl
  | single h c => rfl
  | group h cs => rw [beneath, partsBy, renderParts_eq_map]

theorem mem_partsBy {render : Shape → Option String → Trail Expr} {shape : Shape} {p : Part}
    (h : p ∈ (partsBy render shape).toList) : ∃ c ∈ shape.children, p = ⟨c.head, render c⟩ := by
  cases shape with
  | leaf k => exact absurd h List.not_mem_nil
  | single k c => exact ⟨c, List.mem_singleton_self c, List.mem_singleton.1 h⟩
  | group k cs =>
    obtain ⟨c, hc, rfl⟩ := List.mem_map.1 h
    exact ⟨c, hc, rfl⟩

/-- The parts are the shapes directly beneath. -/
theorem mem_beneath {shape : Shape} {p : Part} (h : p ∈ (s.beneath follow shape).toList) :
    ∃ c ∈ shape.children, p = ⟨c.head, s.renderShape follow c⟩ := by
  rw [beneath_eq_partsBy] at h
  exact mem_partsBy h

end Scope

end ChainTypings
