import ChainTypings.Document.Lookup
import ChainTypings.Proofs.Render.Parts

/-!
# What rendering reads of the registry

Rendering looks entries up by their indices and counts them, and that is all it does with the
registry. So in registries that are alike in this everything is rendered and declared alike
(`Registry.Alike.render`, `Registry.Alike.ofShape`), whatever the names that can be resolved, and in
whatever order the entries stand; and if the entries have the same order by their indices, the
lookup documents are the same (`Lookup.source_congr`).
-/

namespace ChainTypings

/-- Every index leads to the same entry in both registries, and they have equally many. -/
structure Registry.Alike (r r' : Registry) : Prop where
  lookup : ∀ index, Scope.lookup r index = Scope.lookup r' index
  count : r.entries.length = r'.entries.length

namespace Registry.Alike

open Scope

variable {r r' : Registry} (h : r.Alike r') (ignored : List String)

include h

theorem target (head : Head) :
    Scope.target ⟨r, ignored⟩ head = Scope.target ⟨r', ignored⟩ head := by
  unfold Scope.target
  split
  · exact h.lookup _
  · rfl

omit h

/-- A member is rendered without a look at the registry. -/
theorem renderFields (index : Nat) (ps : List Part) :
    Scope.renderFields ⟨r, ignored⟩ index ps = Scope.renderFields ⟨r', ignored⟩ index ps := by
  induction ps generalizing index with
  | nil => rfl
  | cons p ps ih =>
    unfold Scope.renderFields
    rw [ih]
    rfl

include h

/-- Of all rules only that of an indirection looks anything up. -/
theorem rule (follow : Shape → Trail Expr) (shape : Shape) (parts : Parts) (hint : Option String) :
    Scope.rule ⟨r, ignored⟩ follow shape parts hint =
      Scope.rule ⟨r', ignored⟩ follow shape parts hint := by
  unfold Scope.rule
  dsimp only
  cases shape.head.tag with
  | struct =>
    have hfields :
        Scope.renderFields ⟨r, ignored⟩ 0 = Scope.renderFields ⟨r', ignored⟩ 0 :=
      funext (renderFields ignored 0)
    dsimp only
    rw [hfields]
    rfl
  | si =>
    dsimp only
    rw [h.target]
  | _ => rfl

theorem renderShape (follow : Shape → Trail Expr) (shape : Shape) :
    Scope.renderShape ⟨r, ignored⟩ follow shape = Scope.renderShape ⟨r', ignored⟩ follow shape := by
  induction shape using Shape.induction_children with
  | step shape ih =>
    have hbeneath : beneath ⟨r, ignored⟩ follow shape = beneath ⟨r', ignored⟩ follow shape := by
      cases shape with
      | leaf k => rfl
      | single k c => rw [beneath, beneath, ih c (List.mem_singleton_self c)]
      | group k cs =>
        rw [beneath, beneath, renderParts_eq_map, renderParts_eq_map]
        refine congrArg Parts.many (List.map_congr_left fun c hc => ?_)
        rw [ih c hc]
    funext hint
    rw [renderShape_eq, renderShape_eq, hbeneath, h.rule]
    rfl

theorem renderWithin (hops : Nat) :
    Scope.renderWithin ⟨r, ignored⟩ hops = Scope.renderWithin ⟨r', ignored⟩ hops := by
  induction hops with
  | zero =>
    funext shape
    exact h.renderShape ignored _ shape
  | succ hops ih =>
    funext shape
    unfold Scope.renderWithin
    rw [ih]
    exact h.renderShape ignored _ shape

/-- A shape is rendered alike in registries that are alike. -/
theorem render : Scope.render ⟨r, ignored⟩ = Scope.render ⟨r', ignored⟩ := by
  funext shape
  unfold Scope.render
  rw [h.renderWithin]
  exact congrArg (fun hops => Scope.renderWithin ⟨r', ignored⟩ hops shape) h.count

/-! ## Declarations -/

theorem parts (shape : Shape) :
    Declaration.parts ⟨r, ignored⟩ shape = Declaration.parts ⟨r', ignored⟩ shape := by
  unfold Declaration.parts
  rw [h.render]

omit h

theorem fields (index : Nat) (ps : List Part) :
    Declaration.fields ⟨r, ignored⟩ index ps = Declaration.fields ⟨r', ignored⟩ index ps := by
  induction ps generalizing index with
  | nil => rfl
  | cons p ps ih =>
    unfold Declaration.fields
    rw [ih]
    rfl

theorem variantMembers (shape : Shape) (ps : List Part) :
    Declaration.variantMembers ⟨r, ignored⟩ shape ps =
      Declaration.variantMembers ⟨r', ignored⟩ shape ps := by
  induction ps with
  | nil => rfl
  | cons p ps ih =>
    unfold Declaration.variantMembers
    rw [ih]
    rfl

include h

/-- An entry is declared alike in registries that are alike. -/
theorem ofShape :
    Declaration.ofShape ⟨r, ignored⟩ = Declaration.ofShape ⟨r', ignored⟩ := by
  funext shape
  have hfields : Declaration.fields ⟨r, ignored⟩ 0 = Declaration.fields ⟨r', ignored⟩ 0 :=
    funext (fields ignored 0)
  have hvariants : Declaration.variantMembers ⟨r, ignored⟩ shape =
      Declaration.variantMembers ⟨r', ignored⟩ shape :=
    funext (variantMembers ignored shape)
  unfold Declaration.ofShape
  rw [h.parts, h.render, hfields, hvariants]
  rfl

end Registry.Alike

/-- In registries that are alike and order their entries alike the document is the same. -/
theorem Lookup.source_congr {r r' : Registry} (h : r.Alike r') (hshapes : r.shapes? = r'.shapes?)
    (definitions : Definitions) : source r definitions = source r' definitions := by
  unfold source
  rw [hshapes]
  split
  · rfl
  · dsimp only
    rw [h.ofShape]

end ChainTypings
