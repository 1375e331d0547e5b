import ChainTypings.Proofs.Render.Parts
import ChainTypings.Proofs.Session.Follows
import ChainTypings.Session.Call
import Mathlib.Data.List.Forall2

/-!
# Rendering follows its trail

A rule applied on a ledger does what it does as a trail, provided its parts do (`follows_rule`). So
by induction every shape is rendered on a ledger as it is in a trail, and every call follows the
trail of the call (`follows_recording`).
-/

namespace ChainTypings

open Text Import

namespace Recording

variable {α β : Type} {ignored : List String}

/-! ## Parts -/

/-- The same part, ready to be rendered on a ledger and as a trail. -/
structure Alike (ignored : List String) (p : Part) (q : ChainTypings.Part) : Prop where
  head : p.head = q.head
  render : ∀ hint, Follows ignored (p.render hint) (q.render hint)

/-- The same parts, ready to be rendered on a ledger and as trails. -/
inductive AlikeParts (ignored : List String) : Parts → ChainTypings.Parts → Prop
  | none : AlikeParts ignored .none .none
  | one {p : Part} {q : ChainTypings.Part} :
    Alike ignored p q → AlikeParts ignored (.one p) (.one q)
  | many {ps : List Part} {qs : List ChainTypings.Part} :
    List.Forall₂ (Alike ignored) ps qs → AlikeParts ignored (.many ps) (.many qs)

variable {s : Scope}

theorem follows_named (type : String) (typeName : Option String) :
    Follows s.ignored (named type typeName) (s.named type typeName) := by
  unfold named Scope.named
  cases typeName.bind (Label.labelFor? type) with
  | none => exact .done _
  | some label => exact (follows_record "As").map _

theorem follows_aliasOr (h : Head) {c : Recording Expr} {t : Trail Expr}
    (hc : Follows ignored c t) : Follows ignored (aliasOr h c) (Scope.aliasOr h t) := by
  unfold aliasOr Scope.aliasOr
  cases h.alias? with
  | none => exact hc
  | some name => exact .done _

theorem Alike.aliases {ps : List Part} {qs : List ChainTypings.Part}
    (h : List.Forall₂ (Alike ignored) ps qs) :
    (aliases ps).filterMap id = qs.filterMap fun q => q.head.alias? := by
  induction h with
  | nil => rfl
  | cons hpq _ ih =>
    rw [Recording.aliases, List.map_cons, List.filterMap_cons, List.filterMap_cons, hpq.head, ← ih]
    rfl

theorem follows_marker (marker : String) {ps : List Part} {qs : List ChainTypings.Part}
    (h : List.Forall₂ (Alike s.ignored) ps qs) {f : Unit → Recording α} {g : Unit → Trail α}
    (hf : ∀ u, Follows s.ignored (f u) (g u)) :
    Follows s.ignored (recordEach (some marker :: aliases ps) >>= f)
      ((s.mention marker).andThen fun _ => (s.mentionAliases qs).andThen g) := by
  rw [← Trail.andThen_assoc]
  refine Follows.andThen ?_ hf
  refine (follows_record marker).andThen fun _ => ?_
  have haliases : Follows s.ignored (recordEach (aliases ps)) _ := follows_recordEach (aliases ps)
  rwa [Alike.aliases h] at haliases

theorem Alike.argument {p : Part} {q : ChainTypings.Part} (h : Alike ignored p q)
    (hint : Option String) : Follows ignored (argument p hint) (Scope.argument q hint) := by
  unfold Recording.argument Scope.argument
  rw [h.head]
  cases q.head.alias? with
  | none => exact h.render hint
  | some name => exact .done _

theorem Alike.renderMember {p : Part} {q : ChainTypings.Part} (h : Alike s.ignored p q) :
    Follows s.ignored (renderMember p) (s.renderMember q) := by
  unfold Recording.renderMember Scope.renderMember
  rw [h.head]
  cases q.head.alias? with
  | none => exact h.render _
  | some name => exact (follows_record name).andThen fun _ => follows_named _ _

theorem follows_wrap {parts : Parts} {parts' : ChainTypings.Parts}
    (h : AlikeParts s.ignored parts parts') (shape : Shape) (wrapper : String)
    (hint : Option String) :
    Follows s.ignored (wrap shape parts wrapper hint) (s.wrap shape parts' wrapper hint) := by
  cases h with
  | none => exact .fail _
  | many _ => exact .fail _
  | one hpq =>
    refine follows_marker wrapper (.cons hpq .nil) fun _ => ?_
    exact (hpq.argument hint).map _

/-- The parts of a list are refused on both sides, or are alike. -/
theorem follows_listed {parts : Parts} {parts' : ChainTypings.Parts}
    (h : AlikeParts ignored parts parts') (shape : Shape) {f : List Part → Recording α}
    {g : List ChainTypings.Part → Trail α}
    (hf : ∀ ps qs, List.Forall₂ (Alike ignored) ps qs → Follows ignored (f ps) (g qs)) :
    Follows ignored (listed shape parts >>= f) ((Scope.listed shape parts').andThen g) := by
  cases h with
  | none => exact hf [] [] .nil
  | one hpq => exact .fail _
  | many hpqs => exact hf _ _ hpqs

theorem follows_wrapTwo {parts : Parts} {parts' : ChainTypings.Parts}
    (h : AlikeParts s.ignored parts parts') (shape : Shape) (wrapper : String) :
    Follows s.ignored (wrapTwo shape parts wrapper) (s.wrapTwo shape parts' wrapper) := by
  refine follows_listed h shape ?_
  intro ps qs hpqs
  -- only a list of two is not refused
  rcases hpqs with _ | ⟨ha, _ | ⟨hb, _ | ⟨hc, hrest⟩⟩⟩
  · exact .fail _
  · exact .fail _
  · refine follows_marker wrapper (.cons ha (.cons hb .nil)) fun _ => ?_
    exact (ha.argument none).andThen fun _ => (hb.argument none).map _
  · exact .fail _

theorem follows_renderFields {ps : List Part} {qs : List ChainTypings.Part}
    (h : List.Forall₂ (Alike s.ignored) ps qs) (index : Nat) :
    Follows s.ignored (renderFields index ps) (s.renderFields index qs) := by
  induction h generalizing index with
  | nil => exact .done _
  | cons hpq _ ih =>
    unfold renderFields Scope.renderFields
    rw [hpq.head]
    exact hpq.renderMember.andThen fun _ => (ih (index + 1)).map _

theorem follows_renderMembers {ps : List Part} {qs : List ChainTypings.Part}
    (h : List.Forall₂ (Alike s.ignored) ps qs) :
    Follows s.ignored (ps.mapM renderMember) (.mapEach s.renderMember qs) := by
  induction h with
  | nil => exact .done _
  | cons hpq _ ih =>
    rw [List.mapM_cons]
    exact hpq.renderMember.andThen fun _ => ih.map _

theorem follows_name (name : String) :
    Follows s.ignored (do record name; return Expr.name name)
      ((s.mention name).andThen fun _ => .done (.name name)) := (follows_record name).map _

theorem target_eq (h : Head) : target s.registry h = s.target h := by
  unfold target Scope.target
  cases Scope.targetIndex h <;> rfl

/-- The rule of a tag does on a ledger what it does as a trail. -/
theorem follows_rule {follow : Shape → Recording Expr} {follow' : Shape → Trail Expr}
    (hf : ∀ entry, Follows s.ignored (follow entry) (follow' entry)) (shape : Shape)
    {parts : Parts} {parts' : ChainTypings.Parts} (h : AlikeParts s.ignored parts parts')
    (hint : Option String) :
    Follows s.ignored (rule s.registry follow shape parts hint)
      (s.rule follow' shape parts' hint) := by
  unfold rule Scope.rule
  dsimp only
  cases shape.head.tag with
  | vecFixed =>
    cases h with
    | none => exact .fail _
    | many _ => exact .fail _
    | one hpq =>
      dsimp only
      rw [hpq.head]
      split
      · exact follows_name "U8aFixed"
      · exact follows_wrap (.one hpq) shape "Vec" none
  | bTreeMap => exact follows_wrapTwo h shape "BTreeMap"
  | hashMap => exact follows_wrapTwo h shape "HashMap"
  | result => exact follows_wrapTwo h shape "Result"
  | doNotConstruct => exact follows_name "DoNotConstruct"
  | null => exact follows_name "Null"
  | enum => exact follows_aliasOr _ (.fail _)
  | plain =>
    exact follows_aliasOr _ ((follows_record _).andThen fun _ => follows_named _ _)
  | struct =>
    refine follows_aliasOr _ (follows_listed h shape ?_)
    intro ps qs hpqs
    exact follows_marker "Struct" hpqs fun _ => (follows_renderFields hpqs 0).map _
  | tuple =>
    refine follows_aliasOr _ (follows_listed h shape ?_)
    intro ps qs hpqs
    exact follows_marker "ITuple" hpqs fun _ => (follows_renderMembers hpqs).map _
  | si =>
    dsimp only
    rw [target_eq]
    cases s.target shape.head with
    | error e => exact .fail e
    | ok entry => exact hf entry
  | int => exact .fail _
  | uInt => exact .fail _
  | range => exact .fail _
  | set => exact .fail _
  | _ => exact follows_wrap h shape _ _

/-! ## Shapes -/

section Shapes

variable {follow : Shape → Recording Expr} {follow' : Shape → Trail Expr}

theorem alikeParts_renderParts {cs : List Shape}
    (h : ∀ c ∈ cs, ∀ hint, Follows s.ignored (renderShape s.registry follow c hint)
      (s.renderShape follow' c hint)) :
    List.Forall₂ (Alike s.ignored) (renderParts s.registry follow cs)
      (s.renderParts follow' cs) := by
  induction cs with
  | nil => exact .nil
  | cons c cs ih =>
    have hc : Alike s.ignored ⟨c.head, renderShape s.registry follow c⟩
        ⟨c.head, s.renderShape follow' c⟩ := ⟨rfl, h c (by simp)⟩
    exact .cons hc (ih fun d hd => h d (List.mem_cons_of_mem _ hd))

/-- A shape is rendered on a ledger as it is in a trail. -/
theorem follows_renderShape
    (hf : ∀ entry, Follows s.ignored (follow entry) (follow' entry)) (shape : Shape)
    (hint : Option String) :
    Follows s.ignored (renderShape s.registry follow shape hint)
      (s.renderShape follow' shape hint) := by
  induction shape using Shape.induction_children generalizing hint with
  | step shape ih =>
    cases shape with
    | leaf h => exact (follows_record _).andThen fun _ => follows_rule hf _ .none hint
    | single h c =>
      have hc : Alike s.ignored ⟨c.head, renderShape s.registry follow c⟩
          ⟨c.head, s.renderShape follow' c⟩ := ⟨rfl, ih c (List.mem_singleton_self c)⟩
      exact (follows_record _).andThen fun _ => follows_rule hf _ (.one hc) hint
    | group h cs =>
      have hcs := alikeParts_renderParts ih
      exact (follows_record _).andThen fun _ => follows_rule hf _ (.many hcs) hint

end Shapes

variable (s)

theorem follows_renderWithin (hops : Nat) (shape : Shape) (hint : Option String) :
    Follows s.ignored (renderWithin s.registry hops shape hint)
      (s.renderWithin hops shape hint) := by
  -- with no hop left both sides give up at the first indirection
  induction hops generalizing shape hint with
  | zero => exact follows_renderShape (fun _ => .fail _) shape hint
  | succ hops ih => exact follows_renderShape (fun entry => ih entry none) shape hint

theorem follows_render (shape : Shape) (hint : Option String) :
    Follows s.ignored (render s.registry shape hint) (s.render shape hint) :=
  follows_renderWithin s _ shape hint

theorem follows_expression (layout : Layout) (input : TypeInput) (hint : Option String) :
    Follows s.ignored (expression s.registry layout input hint)
      (s.expression layout input hint) := by
  cases input with
  | shape shape => exact follows_render s shape hint
  | text t =>
    unfold expression Scope.expression
    dsimp only
    split
    · exact .done _
    · cases s.registry.resolve t with
      | error e => exact .fail e
      | ok shape => exact follows_render s shape hint

theorem follows_format (layout : Layout) (input : TypeInput) (hint : Option String) :
    Follows s.ignored (format s.registry layout input hint) (s.format layout input hint) :=
  (follows_expression s layout input hint).map _

/-! ## Declarations -/

variable {s}

theorem follows_declared (shape : Shape) {f : List Part → Recording α}
    {g : List ChainTypings.Part → Trail α}
    (hf : ∀ ps qs, List.Forall₂ (Alike s.ignored) ps qs → Follows s.ignored (f ps) (g qs)) :
    Follows s.ignored (declared s.registry shape >>= f)
      ((Declaration.parts s shape).andThen g) := by
  cases shape with
  | leaf h => exact hf [] [] .nil
  | single h c => exact .fail _
  | group h cs =>
    refine hf _ _ ?_
    rw [List.forall₂_map_left_iff, List.forall₂_map_right_iff, List.forall₂_same]
    exact fun c _ => ⟨rfl, follows_render s c⟩

theorem follows_fields {ps : List Part} {qs : List ChainTypings.Part}
    (h : List.Forall₂ (Alike s.ignored) ps qs) (index : Nat) :
    Follows s.ignored (fields index ps) (Declaration.fields s index qs) := by
  induction h generalizing index with
  | nil => exact .done _
  | cons hpq _ ih =>
    unfold fields Declaration.fields
    rw [hpq.head]
    exact hpq.renderMember.andThen fun _ => (ih (index + 1)).map _

theorem follows_variantMembers (shape : Shape) {ps : List Part} {qs : List ChainTypings.Part}
    (h : List.Forall₂ (Alike s.ignored) ps qs) :
    Follows s.ignored (variantMembers shape ps) (Declaration.variantMembers s shape qs) := by
  induction h with
  | nil => exact .done _
  | @cons p q _ _ hpq _ ih =>
    unfold variantMembers Declaration.variantMembers
    rw [hpq.head]
    cases q.head.label? with
    | none => exact .fail _
    | some label =>
      dsimp only
      -- a variant that holds nothing is not rendered
      split
      · exact (Follows.done _).andThen fun _ => ih.map _
      · exact hpq.renderMember.andThen fun _ => (Follows.done _).andThen fun _ => ih.map _

theorem Alike.variantNames {ps : List Part} {qs : List ChainTypings.Part}
    (h : List.Forall₂ (Alike ignored) ps qs) :
    variantNames ps = Declaration.variantNames qs := by
  induction h with
  | nil => rfl
  | cons hpq _ ih =>
    unfold Recording.variantNames Declaration.variantNames at ih ⊢
    rw [List.filterMap_cons, List.filterMap_cons, hpq.head, ih]

theorem follows_declare (s : Scope) (shape : Shape) :
    Follows s.ignored (declare s.registry shape) (Declaration.ofShape s shape) := by
  unfold declare Declaration.ofShape
  dsimp only
  cases shape.head.tag with
  | struct =>
    refine (follows_record "Struct").andThen fun _ => follows_declared shape ?_
    intro ps qs hpqs
    exact (follows_fields hpqs 0).map _
  | enum =>
    refine (follows_record "Enum").andThen fun _ => follows_declared shape ?_
    intro ps qs hpqs
    rw [Alike.variantNames hpqs]
    exact (follows_variantMembers shape hpqs).map _
  | _ => exact (follows_render s _ none).map _

end Recording

/-! ## Calls -/

namespace Call

/-- What a call mentions and gives when the document declares the names itself. -/
def trail (ignored : List String) : Call → Trail (Option String)
  | record types =>
    (mentionsAll ignored (types.filterMap id)).andThen fun _ => .done none
  | label type typeName =>
    (Scope.named ⟨{}, ignored⟩ type typeName).andThen fun e => .done (e.print .multiLine)
  | format registry layout input hint =>
    (Scope.format ⟨registry, ignored⟩ layout input hint).andThen fun text => .done text
  | declare registry shape =>
    (Declaration.ofShape ⟨registry, ignored⟩ shape).andThen fun d => .done d.print

/-- A call does on a ledger what its trail says. -/
theorem follows_recording (ignored : List String) (c : Call) :
    Recording.Follows ignored c.recording (c.trail ignored) := by
  cases c with
  | record types => exact (Recording.follows_recordEach types).map _
  | label type typeName => exact (Recording.follows_named (s := ⟨{}, ignored⟩) type typeName).map _
  | format registry layout input hint =>
    exact (Recording.follows_format ⟨registry, ignored⟩ layout input hint).map _
  | declare registry shape =>
    exact (Recording.follows_declare ⟨registry, ignored⟩ shape).map _

end Call

end ChainTypings
