import ChainTypings.Document.Declaration
import ChainTypings.Proofs.Render.Clean
import ChainTypings.Proofs.Render.References

/-!
# What a declaration mentions and refers to

A declaration is put together from its marker and from what its members are rendered as, so what
holds of rendering holds of it: no ignored name is mentioned, and whatever it refers to belongs to
the vocabulary and has been met.
-/

namespace ChainTypings

/-- The names of types that a member refers to. -/
def MemberType.references : MemberType → List String
  | expr e => e.references
  | boolean => []
  | variants _ => []

/-- The names of types that the members of an interface refer to. -/
def Declaration.memberReferences (members : List (String × MemberType)) : List String :=
  members.flatMap fun m => m.2.references

/-- The names of types that a declaration refers to. -/
def Declaration.references (d : Declaration) : List String :=
  d.base.references ++ memberReferences d.members

theorem Shape.Spelt.anonymous {p : String → Prop} {shape : Shape} (h : shape.Spelt p) :
    shape.anonymous.Spelt p := by
  intro k hk
  rw [shape.heads_anonymous] at hk
  rcases List.mem_cons.1 hk with rfl | hk
  · have hhead := h _ shape.head_mem_heads
    exact ⟨fun n hn => absurd hn (by simp [Head.alias?, Json.label?]), hhead.plain⟩
  · exact h k (List.mem_of_mem_tail hk)

namespace Declaration

open Scope

/-- The parts of a declaration are refused, or they are the shapes directly beneath. -/
theorem parts_cases (s : Scope) (shape : Shape) :
    parts s shape = .fail (.unsupported shape .expectedList) ∨
      parts s shape = .done (shape.children.map fun c => ⟨c.head, s.render c⟩) := by
  cases shape with
  | leaf h => exact .inr rfl
  | single h c => exact .inl rfl
  | group h cs => exact .inr rfl

/-- A declaration has the name under which its entry is declared. -/
theorem gives_name (s : Scope) (shape : Shape) (known : String → Prop) :
    (ofShape s shape).Gives known fun d _ => d.name = shape.head.alias?.getD "" := by
  unfold ofShape
  dsimp only
  split
  · refine (Trail.Gives.trivial known _).andThen ?_
    intro _ _ _ _
    refine (Trail.Gives.trivial _ _).andThen ?_
    intro _ _ _ _
    exact (Trail.Gives.trivial _ _).map fun _ _ _ _ => rfl
  · refine (Trail.Gives.trivial known _).andThen ?_
    intro _ _ _ _
    refine (Trail.Gives.trivial _ _).andThen ?_
    intro _ _ _ _
    exact (Trail.Gives.trivial _ _).map fun _ _ _ _ => rfl
  · exact (Trail.Gives.trivial known _).map fun _ _ _ _ => rfl

variable {s : Scope}

/-! ## Ignored names -/

theorem clean_fields {ps : List Part} (h : ∀ p ∈ ps, s.CleanPart p) (index : Nat) :
    s.Clean (fields s index ps) := by
  induction ps generalizing index with
  | nil => exact .done _
  | cons p ps ih =>
    refine (h p (by simp)).renderMember.andThen ?_
    intro _
    have hps := ih (fun q hq => h q (List.mem_cons_of_mem _ hq)) (index + 1)
    exact hps.andThen fun _ => .done _

theorem clean_variantMembers (shape : Shape) {ps : List Part} (h : ∀ p ∈ ps, s.CleanPart p) :
    s.Clean (variantMembers s shape ps) := by
  induction ps with
  | nil => exact .done _
  | cons p ps ih =>
    have hps := ih fun q hq => h q (List.mem_cons_of_mem _ hq)
    unfold variantMembers
    split
    · exact .fail _
    · dsimp only
      split
      · exact (Trail.AllNames.done _).andThen fun _ => hps.andThen fun _ => .done _
      · refine (h p (by simp)).renderMember.andThen ?_
        intro _
        exact (Trail.AllNames.done _).andThen fun _ => hps.andThen fun _ => .done _

theorem clean_ofShape (s : Scope) (shape : Shape) : s.Clean (ofShape s shape) := by
  have list : ∀ f : List Part → Trail Declaration,
      (∀ ps, (∀ p ∈ ps, s.CleanPart p) → s.Clean (f ps)) →
        s.Clean ((parts s shape).andThen f) := by
    intro f hf
    rcases parts_cases s shape with hp | hp
    · rw [hp]
      exact .fail _
    · rw [hp, Trail.done_andThen]
      refine hf _ ?_
      intro p hp
      obtain ⟨c, _, rfl⟩ := List.mem_map.1 hp
      exact s.clean_render c
  unfold ofShape
  dsimp only
  split
  · refine (s.clean_mention "Struct").andThen fun _ => list _ ?_
    intro ps hps
    exact (clean_fields hps 0).andThen fun _ => .done _
  · refine (s.clean_mention "Enum").andThen fun _ => list _ ?_
    intro ps hps
    exact (clean_variantMembers shape hps).andThen fun _ => .done _
  · exact (s.clean_render _ none).andThen fun _ => .done _

/-! ## References -/

variable {p : String → Prop} (v : Vocabulary p)

include v

theorem gives_fields {qs : List Part} (h : ∀ q ∈ qs, s.Sound p q) (known : String → Prop)
    (index : Nat) :
    (fields s index qs).Gives known fun ms k => s.Refers p k (memberReferences ms) := by
  induction qs generalizing known index with
  | nil => exact .done .nil
  | cons q qs ih =>
    refine ((h q (by simp)).renderMember v known).andThen ?_
    intro e k₁ hk₁ he
    have hqs := ih (fun q' hq' => h q' (List.mem_cons_of_mem _ hq')) k₁ (index + 1)
    exact hqs.map fun ms k₂ hk₂ hms => (he.mono hk₂).append hms

theorem gives_variantMembers (shape : Shape) {qs : List Part} (h : ∀ q ∈ qs, s.Sound p q)
    (known : String → Prop) :
    (variantMembers s shape qs).Gives known fun ms k => s.Refers p k (memberReferences ms) := by
  induction qs generalizing known with
  | nil => exact .done .nil
  | cons q qs ih =>
    have hqs := ih fun q' hq' => h q' (List.mem_cons_of_mem _ hq')
    unfold variantMembers
    split
    · exact .fail _
    · dsimp only
      -- a variant that holds nothing has only the member that tells whether it is the one
      split
      · exact (hqs known).map fun ms k _ hms => hms
      · refine ((h q (by simp)).renderMember v known).andThen ?_
        intro e k₁ hk₁ he
        exact (hqs k₁).map fun ms k₂ hk₂ hms => (he.mono hk₂).append hms

/-- Whatever a declaration refers to belongs to the vocabulary and has been met. -/
theorem gives_ofShape (hr : ∀ e ∈ s.registry.entries, e.2.Spelt p) {shape : Shape}
    (hs : shape.Spelt p) (known : String → Prop) :
    (ofShape s shape).Gives known fun d k => s.Refers p k d.references := by
  have list : ∀ (k : String → Prop) (f : List Part → Trail Declaration)
      (post : Declaration → (String → Prop) → Prop),
      (∀ qs, (∀ q ∈ qs, s.Sound p q) → (f qs).Gives k post) →
        ((parts s shape).andThen f).Gives k post := by
    intro k f post hf
    rcases parts_cases s shape with hp | hp
    · rw [hp]
      exact .fail _
    · rw [hp, Trail.done_andThen]
      refine hf _ ?_
      intro q hq
      obtain ⟨c, hc, rfl⟩ := List.mem_map.1 hq
      have hspelt : c.Spelt p := fun h hh => hs h (Shape.mem_heads_of_mem_children hc hh)
      exact ⟨hspelt _ c.head_mem_heads, fun hint k' => gives_render v hr hspelt hint k'⟩
  unfold ofShape
  dsimp only
  split
  · have hstruct : p "Struct" := v.has
    refine (gives_mention v known hstruct).andThen fun _ k₁ _ hmet => list k₁ _ _ ?_
    intro qs hqs
    refine (gives_fields v hqs k₁ 0).map ?_
    intro ms k₂ hk₂ hms
    exact .cons hstruct (hmet.mono hk₂) hms
  · have henum : p "Enum" := v.has
    refine (gives_mention v known henum).andThen fun _ k₁ _ hmet => list k₁ _ _ ?_
    intro qs hqs
    refine (gives_variantMembers v shape hqs k₁).map ?_
    intro ms k₂ hk₂ hms
    -- the union of the variants refers to no type
    have hunion : memberReferences (ms ++ [("type", .variants (variantNames qs))]) =
        memberReferences ms := by
      simp [memberReferences, MemberType.references]
    show s.Refers p k₂ ("Enum" :: memberReferences (ms ++ [_]))
    rw [hunion]
    exact .cons henum (hmet.mono hk₂) hms
  · refine (gives_render v hr hs.anonymous none known).map ?_
    intro base k _ hbase
    exact hbase.append .nil

end Declaration

end ChainTypings
