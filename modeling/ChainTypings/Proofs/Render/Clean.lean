import ChainTypings.Proofs.Render.Parts
import ChainTypings.Proofs.Render.Trail

/-!
# Ignored names are never mentioned

Names enter a trail at one place, where a type text is taken apart, and that place passes over the
ignored ones. The rest is put together from such trails, so rendering a shape never mentions an
ignored name, whether it succeeds or fails.
-/

namespace ChainTypings

open Text Import

namespace Import

theorem allNames_note (ignored : List String) (name : String) :
    (note ignored name).AllNames (· ∉ ignored) := by
  unfold note
  by_cases h : name ∈ ignored
  · rw [if_pos (by simpa using h)]
    exact .done ()
  · rw [if_neg (by simpa using h)]
    exact .mention h

theorem not_mem_of_stepOf {ignored : List String} {cs : List Char}
    (h : stepOf ignored cs = .name) : String.ofList cs ∉ ignored := by
  intro hm
  rw [stepOf, if_pos (by simp [hm])] at h
  exact Step.noConfusion h

theorem allNames_mentions (ignored : List String) (cs : List Char) :
    (mentions ignored cs).AllNames (· ∉ ignored) := by
  induction hw : weight cs using Nat.strongRecOn generalizing cs with
  | ind w ih =>
    rw [mentions_eq]
    cases hstep : stepOf ignored cs with
    | nothing => exact .done ()
    | name => exact .mention (not_mem_of_stepOf hstep)
    | compound =>
      cases hparse : Shape.parse cs with
      | error e => exact .fail _
      | ok shape =>
        refine (allNames_note ignored _).andThen fun _ => .forEach ?_
        intro child hchild
        -- what stands beneath a type weighs less than its text
        have hlt := Shape.weight_type_lt hparse hchild
        exact ih _ (hw ▸ hlt) _ rfl

end Import

namespace Scope

/-- Nothing that the document declares itself is mentioned. -/
abbrev Clean {α : Type} (s : Scope) (t : Trail α) : Prop := t.AllNames (· ∉ s.ignored)

variable (s : Scope)

theorem clean_mention (type : String) : s.Clean (s.mention type) := allNames_mentions _ _

theorem clean_mentionAliases (ps : List Part) : s.Clean (s.mentionAliases ps) :=
  .forEach fun _ _ => allNames_mentions _ _

theorem clean_named (type : String) (typeName : Option String) :
    s.Clean (s.named type typeName) := by
  unfold named
  split
  · exact (s.clean_mention "As").andThen fun _ => .done _
  · exact .done _

theorem clean_aliasOr (h : Head) {t : Trail Expr} (ht : s.Clean t) : s.Clean (aliasOr h t) := by
  unfold aliasOr
  split
  · exact .done _
  · exact ht

/-- Rendering the part mentions nothing that the document declares itself. -/
def CleanPart (s : Scope) (p : Part) : Prop := ∀ hint, s.Clean (p.render hint)

variable {s : Scope}

theorem CleanPart.argument {p : Part} (h : s.CleanPart p) (hint : Option String) :
    s.Clean (argument p hint) := by
  unfold Scope.argument
  split
  · exact .done _
  · exact h hint

theorem CleanPart.renderMember {p : Part} (h : s.CleanPart p) : s.Clean (s.renderMember p) := by
  unfold Scope.renderMember
  split
  · exact (s.clean_mention _).andThen fun _ => s.clean_named _ _
  · exact h _

theorem clean_wrap {parts : Parts} (h : ∀ p ∈ parts.toList, s.CleanPart p) (shape : Shape)
    (wrapper : String) (hint : Option String) : s.Clean (s.wrap shape parts wrapper hint) := by
  cases parts with
  | none => exact .fail _
  | many ps => exact .fail _
  | one p =>
    have hp := h p (List.mem_singleton_self p)
    refine (s.clean_mention wrapper).andThen ?_
    intro _
    refine (s.clean_mentionAliases [p]).andThen ?_
    intro _
    exact (hp.argument hint).andThen fun _ => .done _

theorem clean_wrapTwo {parts : Parts} (h : ∀ p ∈ parts.toList, s.CleanPart p) (shape : Shape)
    (wrapper : String) : s.Clean (s.wrapTwo shape parts wrapper) := by
  unfold wrapTwo
  rcases listed_cases shape parts with hl | hl
  · rw [hl]
    exact .fail _
  rw [hl, Trail.bind_eq, Trail.done_andThen]
  generalize parts.toList = ps at h
  split
  · next a b =>
    refine (s.clean_mention wrapper).andThen ?_
    intro _
    refine (s.clean_mentionAliases [a, b]).andThen ?_
    intro _
    refine ((h a (by simp)).argument none).andThen ?_
    intro _
    exact ((h b (by simp)).argument none).andThen fun _ => .done _
  · exact .fail _

theorem clean_renderFields {ps : List Part} (h : ∀ p ∈ ps, s.CleanPart p) (index : Nat) :
    s.Clean (s.renderFields index ps) := by
  induction ps generalizing index with
  | nil => exact .done _
  | cons p ps ih =>
    refine (h p (by simp)).renderMember.andThen ?_
    intro _
    have hps := ih (fun q hq => h q (List.mem_cons_of_mem _ hq)) (index + 1)
    exact hps.andThen fun _ => .done _

/-! ## Shapes -/

variable {follow : Shape → Trail Expr}

theorem clean_rule (hf : ∀ entry, s.Clean (follow entry)) (shape : Shape) {parts : Parts}
    (h : ∀ p ∈ parts.toList, s.CleanPart p) (hint : Option String) :
    s.Clean (s.rule follow shape parts hint) := by
  have name : ∀ n : String, s.Clean ((s.mention n).andThen fun _ => .done (Expr.name n)) :=
    fun n => (s.clean_mention n).andThen fun _ => .done _
  have list : ∀ f : List Part → Trail Expr,
      s.Clean (f parts.toList) → s.Clean ((listed shape parts).andThen f) := by
    intro f hf
    rcases listed_cases shape parts with hl | hl
    · rw [hl]
      exact .fail _
    · rw [hl, Trail.done_andThen]
      exact hf
  unfold rule
  dsimp only
  cases shape.head.tag with
  | vecFixed =>
    dsimp only
    split
    · split
      · exact name "U8aFixed"
      · exact clean_wrap h shape "Vec" none
    · exact .fail _
  | bTreeMap => exact clean_wrapTwo h shape "BTreeMap"
  | hashMap => exact clean_wrapTwo h shape "HashMap"
  | result => exact clean_wrapTwo h shape "Result"
  | doNotConstruct => exact name "DoNotConstruct"
  | null => exact name "Null"
  | enum => exact s.clean_aliasOr _ (.fail _)
  | plain => exact s.clean_aliasOr _ ((s.clean_mention _).andThen fun _ => s.clean_named _ _)
  | struct =>
    refine s.clean_aliasOr _ (list _ ?_)
    refine (s.clean_mention "Struct").andThen ?_
    intro _
    refine (s.clean_mentionAliases _).andThen ?_
    intro _
    exact (clean_renderFields h 0).andThen fun _ => .done _
  | tuple =>
    refine s.clean_aliasOr _ (list _ ?_)
    refine (s.clean_mention "ITuple").andThen ?_
    intro _
    refine (s.clean_mentionAliases _).andThen ?_
    intro _
    exact (Trail.AllNames.mapEach fun p hp => (h p hp).renderMember).andThen fun _ => .done _
  | si =>
    dsimp only
    split
    · exact hf _
    · exact .fail _
  | int => exact .fail _
  | uInt => exact .fail _
  | range => exact .fail _
  | set => exact .fail _
  | _ => exact clean_wrap h shape _ _

theorem clean_renderShape (hf : ∀ entry, s.Clean (follow entry)) (shape : Shape)
    (hint : Option String) : s.Clean (s.renderShape follow shape hint) := by
  induction shape using Shape.induction_children generalizing hint with
  | step shape ih =>
    rw [renderShape_eq]
    refine (s.clean_mention _).andThen fun _ => clean_rule hf shape ?_ hint
    intro p hp
    obtain ⟨c, hc, rfl⟩ := s.mem_beneath follow hp
    exact ih c hc

variable (s)

theorem clean_renderWithin (hops : Nat) (shape : Shape) (hint : Option String) :
    s.Clean (s.renderWithin hops shape hint) := by
  induction hops generalizing shape hint with
  | zero => exact clean_renderShape (fun _ => .fail _) shape hint
  | succ hops ih => exact clean_renderShape (fun entry => ih entry none) shape hint

theorem clean_render (shape : Shape) (hint : Option String) : s.Clean (s.render shape hint) :=
  s.clean_renderWithin _ shape hint

end Scope

end ChainTypings
