import ChainTypings.Proofs.Render.Errors

/-!
# What formatting a text may fail of

The shape of a text fits its tags everywhere. So if the entries of the registry do, too, no shape
that formatting a text comes by lacks what its rule needs, and the one thing that may be wrong with
a shape is that there is no rule for it (`format_error_of_fits`).
-/

namespace ChainTypings

namespace RenderError

/-- If the error is about a shape, there is no rule for its tag. -/
def IsUnruled (e : RenderError) : Prop :=
  ∀ shape reason, e = .unsupported shape reason → reason = .noRule ∧ shape.head.tag ∈ Tag.unruled

/-- An error that is not about a shape. -/
theorem isUnruled_of_ne {e : RenderError} (h : ∀ shape reason, e ≠ .unsupported shape reason) :
    e.IsUnruled :=
  fun shape reason he => absurd he (h shape reason)

end RenderError

namespace Registry

variable {r : Registry} {text : String}

theorem parse_of_resolve {shape : Shape} (h : r.resolve text = .ok shape) :
    Shape.parse text.toList = .ok shape := by
  unfold resolve at h
  split at h
  · cases h
  · next hparse =>
    split at h
    · obtain rfl := Except.ok.inj h
      exact hparse
    · cases h

/-- A text is not resolved because it has no shape or names an unknown type. -/
theorem resolve_eq_error {e : RenderError} (h : r.resolve text = .error e) :
    (∃ cause, e = .parse cause) ∨ ∃ name, e = .unknownType name := by
  unfold resolve at h
  split at h
  · exact .inl ⟨_, (Except.error.inj h).symm⟩
  · split at h
    · cases h
    · exact .inr ⟨_, (Except.error.inj h).symm⟩

end Registry

namespace Scope

open RenderError

variable {s : Scope}

theorem isUnruled_target {h : Head} {e : RenderError} (he : s.target h = .error e) :
    e.IsUnruled := by
  refine isUnruled_of_ne ?_
  rintro shape reason rfl
  rcases target_eq_error he with h | ⟨_, _, ⟨h, _⟩ | h⟩ <;> cases h

/-- Where all nodes fit their tags, only the want of a rule is an error about a shape. -/
theorem isUnruled_renderWithin (hr : ∀ e ∈ s.registry.entries, e.2.Everywhere Shape.Fits)
    (hops : Nat) {shape : Shape} (hs : shape.Everywhere Shape.Fits) (hint : Option String) :
    (s.renderWithin hops shape hint).AllErrors IsUnruled := by
  have mention : ∀ type, (s.mention type).AllErrors IsUnruled := by
    intro type
    refine allErrors_mentions (q := fun _ => True) (fun _ _ _ _ _ _ => trivial) ?_ _ trivial
    intro _ _ _ _
    exact isUnruled_of_ne fun _ _ => RenderError.noConfusion
  have renderShape : ∀ (follow : Shape → Trail Expr) (shape : Shape) (hint : Option String),
      (∀ entry, entry.Everywhere Shape.Fits → (follow entry).AllErrors IsUnruled) →
      shape.Everywhere Shape.Fits → (s.renderShape follow shape hint).AllErrors IsUnruled := by
    intro follow shape hint hfollow hs
    refine allErrors_renderShape (fun t ht => ?_) (fun entry hentry => ?_) hint
    · refine ⟨mention _, fun _ _ n _ => mention n, ?_, fun e he => isUnruled_target he⟩
      intro reason hlacks shape' reason' heq
      cases heq
      exact hlacks.resolve_right fun hfit => hfit (hs.of_reaches ht)
    · obtain ⟨_, _, _, htarget⟩ := hentry
      obtain ⟨k, hk⟩ := exists_mem_of_target htarget
      exact hfollow entry (hr _ hk)
  induction hops generalizing shape hint with
  | zero =>
    refine renderShape _ shape hint (fun _ _ => .fail ?_) hs
    exact isUnruled_of_ne fun _ _ => RenderError.noConfusion
  | succ hops ih => exact renderShape _ shape hint (fun _ hentry => ih hentry none) hs

theorem isUnruled_render (hr : ∀ e ∈ s.registry.entries, e.2.Everywhere Shape.Fits)
    {shape : Shape} (hs : shape.Everywhere Shape.Fits) (hint : Option String) :
    (s.render shape hint).AllErrors IsUnruled :=
  isUnruled_renderWithin hr _ hs hint

theorem isUnruled_format (hr : ∀ e ∈ s.registry.entries, e.2.Everywhere Shape.Fits)
    (layout : Layout) (text : String) (hint : Option String) :
    (s.format layout (.text text) hint).AllErrors IsUnruled := by
  refine Trail.AllErrors.map ?_ _
  unfold expression
  dsimp only
  split
  · exact .done _
  · split
    · next shape hresolve =>
      have hshape := Shape.everywhere_parse (Registry.parse_of_resolve hresolve)
      exact isUnruled_render hr (hshape.mono fun _ h => h.fits) hint
    · next e hresolve =>
      refine .fail (isUnruled_of_ne ?_)
      rintro shape reason rfl
      rcases Registry.resolve_eq_error hresolve with ⟨_, h⟩ | ⟨_, h⟩ <;> cases h

end Scope

namespace Call

/-- Every node of the shape of a text is as its tag asks for. So where the nodes of all entries fit
their tags, formatting a text on any ledger finds nothing wrong with a shape but that there is no
rule for its tag. -/
theorem format_error_of_fits :
    (∀ (name : Json) (text : List Char) (shape : Shape),
      Shape.parseNamed name text = .ok shape → shape.Everywhere Shape.IsParsed) ∧
    ∀ r : Registry, (∀ e ∈ r.entries, e.2.Everywhere Shape.Fits) →
      ∀ (l : Ledger) (layout : Layout) (text : String) (hint : Option String) (shape : Shape)
        (reason : Unsupported),
        (format r layout (.text text) hint).outcome l = .error (.unsupported shape reason) →
          reason = .noRule ∧ shape.head.tag ∈ Tag.unruled := by
  refine ⟨fun _ _ _ => Shape.everywhere_parseNamed, ?_⟩
  intro r hr l layout text hint shape reason h
  rw [outcome_eq _ fun _ => Iff.rfl] at h
  have herrors := (Scope.isUnruled_format (s := ⟨r, l.ignored⟩) hr layout text hint).map some
  exact herrors _ h shape reason rfl

/-- A registry of a range and of an enumeration without a name. -/
def unruledRegistry : Registry where
  entries :=
    [(.number 0 0,
      .single { tag := .range, type := "Range<u8>", lookupIndex := .int 0 }
        (.leaf { tag := .plain, type := "u8" })),
     (.number 1 0,
      .group { tag := .enum, type := "Phase", lookupIndex := .int 1 }
        [.leaf { tag := .null, type := "Null", name := .str "Done" }])]
  known := ["u8"]

/-- Whether formatting fails because of a shape. -/
def isUnsupported : Except RenderError (Option String) → Bool
  | .error (.unsupported _ _) => true
  | _ => false

/-- An option of either entry is parsed, but for want of a rule it cannot be formatted. -/
theorem format_error_unruledRegistry : (∀ e ∈ unruledRegistry.entries, e.2.Everywhere Shape.Fits) ∧
    ∀ text ∈ ["Option<Lookup0>", "Option<Lookup1>"],
      (∃ shape, Shape.parseNamed .null text.toList = .ok shape ∧
        shape.Everywhere Shape.IsParsed) ∧
      ∃ shape, (format unruledRegistry .multiLine (.text text) none).outcome (.empty [] []) =
        .error (.unsupported shape .noRule) ∧ shape.head.tag ∈ Tag.unruled := by
  have hfits : ∀ e ∈ unruledRegistry.entries, e.2.Everywhere Shape.Fits := by
    intro e he
    simp only [unruledRegistry, List.mem_cons, List.not_mem_nil, or_false] at he
    rcases he with rfl | rfl
    · exact .single rfl (.leaf rfl)
    · refine .group rfl fun c hc => ?_
      obtain rfl := List.mem_singleton.1 hc
      exact .leaf rfl
  have hruns : ∀ text ∈ ["Option<Lookup0>", "Option<Lookup1>"],
      (Shape.parseNamed .null text.toList).toOption.isSome = true ∧ isUnsupported
        ((format unruledRegistry .multiLine (.text text) none).outcome (.empty [] [])) = true := by
    decide +kernel
  refine ⟨hfits, fun text htext => ?_⟩
  obtain ⟨hparsed, hunsupported⟩ := hruns text htext
  constructor
  · cases hparse : Shape.parseNamed .null text.toList with
    | error e =>
      rw [hparse] at hparsed
      cases hparsed
    | ok shape => exact ⟨shape, rfl, format_error_of_fits.1 _ _ _ hparse⟩
  · unfold isUnsupported at hunsupported
    split at hunsupported
    · next shape reason hout =>
      obtain ⟨rfl, htag⟩ := format_error_of_fits.2 unruledRegistry hfits _ _ _ _ _ _ hout
      exact ⟨shape, hout, htag⟩
    · cases hunsupported

end Call

end ChainTypings
