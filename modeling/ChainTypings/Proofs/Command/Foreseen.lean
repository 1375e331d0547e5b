import ChainTypings.Command.Generate
import ChainTypings.Proofs.Document.Entries
import ChainTypings.Proofs.Document.Failing
import ChainTypings.Proofs.Render.Acyclic
import ChainTypings.Proofs.Shape.Ordinary

/-!
# Foreseen failures

A generation is meant to end in one of three ways if not well: the metadata are malformed, a type
cannot be resolved, or a shape has no rule. The annotations of shapes are not checked when they are
read. If they are of the kinds that they are declared with, rendering fails in one of these ways or
because of a text that is not ordinary (`isExcused_render`, `isExcused_ofShape`).
-/

namespace ChainTypings

/-- The failure is one that a generation is meant to end in: malformed metadata, a type that cannot
be resolved, or a shape without a rule. -/
def Failure.isForeseen : Failure → Bool
  | malformed _ _ => true
  | metadata e => metadataKind? e = some .error
  | registry e => (registry e).kind? = some .error
  | render e => renderKind? e = some .resolution || renderKind? e = some .unsupported
  | _ => false

/-- A text that names no type makes a foreseen failure. -/
theorem Failure.isForeseen_parse {cause : ParseError} (h : cause.isResolution = true) :
    (render (.parse cause)).isForeseen = true := by
  cases cause with
  | notNumber _ => cases h
  | unevenFlag _ _ => cases h
  | badFlags => cases h
  | _ => rfl

/-- The failure is foreseen or, unless all texts are ordinary, comes of a text without a shape. -/
def Failure.IsExcused (ordinary : Prop) (f : Failure) : Prop :=
  f.isForeseen = true ∨ ¬ ordinary ∧ ∃ cause, f = .render (.parse cause)

/-- The render error makes an excused failure. -/
def RenderError.IsExcused (ordinary : Prop) (e : RenderError) : Prop :=
  (Failure.render e).IsExcused ordinary

/-! ## Annotations of the declared kinds -/

namespace Head

/-- The type and what it is referred to by are ordinary. -/
def IsOrdinary (h : Head) : Prop :=
  ChainTypings.IsOrdinary h.type.toList ∧ ChainTypings.IsOrdinary h.reference.toList

instance (h : Head) : Decidable h.IsOrdinary := inferInstanceAs (Decidable (_ ∧ _))

/-- The annotations are of the declared kinds, and where all texts are ordinary, so are these. -/
structure Vetted (ordinary : Prop) (h : Head) : Prop where
  typed : h.isTyped = true
  texts : ordinary → h.IsOrdinary

theorem isPlace_of_isTyped {h : Head} (ht : h.isTyped = true) :
    Metadata.isPlace h.lookupIndex = true := by
  simp only [isTyped, Bool.and_eq_true] at ht
  exact ht.1.2

theorem IsOrdinary.alias {h : Head} (ho : h.IsOrdinary) {n : String} (hn : h.alias? = some n) :
    ChainTypings.IsOrdinary n.toList := by
  have href := ho.2
  rwa [reference, hn] at href

theorem Vetted.anonymous {ordinary : Prop} {h : Head} (hv : h.Vetted ordinary) :
    ({ h with lookupName := .null } : Head).Vetted ordinary := by
  constructor
  · have ht := hv.typed
    simp only [isTyped, List.all_cons, Bool.and_eq_true] at ht ⊢
    exact ⟨⟨⟨rfl, ht.1.1.2⟩, ht.1.2⟩, ht.2⟩
  · intro ho
    exact ⟨(hv.texts ho).1, (hv.texts ho).1⟩

end Head

/-- All heads of the shape are vetted. -/
def Shape.Vetted (ordinary : Prop) (s : Shape) : Prop := ∀ k ∈ s.heads, k.Vetted ordinary

namespace Shape.Vetted

variable {ordinary : Prop} {s : Shape}

theorem here (h : s.Vetted ordinary) : s.head.Vetted ordinary := h _ s.head_mem_heads

theorem beneath (h : s.Vetted ordinary) {c : Shape} (hc : c ∈ s.children) : c.Vetted ordinary :=
  fun k hk => h k (mem_heads_of_mem_children hc hk)

theorem reached (h : s.Vetted ordinary) {t : Shape} (ht : s.Reaches t) : t.Vetted ordinary :=
  fun k hk => h k (ht.mem_heads hk)

theorem anonymous (h : s.Vetted ordinary) : s.anonymous.Vetted ordinary := by
  intro k hk
  rw [s.heads_anonymous] at hk
  rcases List.mem_cons.1 hk with rfl | hk
  · exact h.here.anonymous
  · exact h k (List.mem_of_mem_tail hk)

end Shape.Vetted

namespace Metadata

/-- All annotations in the entries are of the declared kinds. -/
def IsTyped (m : Metadata) : Prop := ∀ s ∈ m.entries, ∀ k ∈ s.heads, k.isTyped = true

/-- All texts in the entries are ordinary. -/
def IsOrdinary (m : Metadata) : Prop := ∀ s ∈ m.entries, ∀ k ∈ s.heads, k.IsOrdinary

theorem isPlace_of_palletsOf {vs : List Json} {ps : List Pallet} (h : palletsOf vs = .ok ps) :
    ∀ p ∈ ps, isPlace p.errors = true := by
  have one : ∀ {v p}, palletOf v = .ok p → isPlace p.errors = true := by
    intro v p h
    unfold palletOf at h
    split at h
    · split at h
      · dsimp only at h
        split at h
        · next hplace =>
          obtain rfl := Except.ok.inj h
          exact hplace
        · cases h
      · cases h
    · cases h
  induction vs generalizing ps with
  | nil =>
    obtain rfl := Except.ok.inj h
    simp
  | cons v rest ih =>
    unfold palletsOf at h
    split at h
    · cases h
    · next hp =>
      split at h
      · next hps =>
        obtain rfl := Except.ok.inj h
        exact List.forall_mem_cons.2 ⟨one hp, ih hps⟩
      · cases h

/-- If reading in two steps succeeds, so does each step. -/
theorem exists_of_bind {α β : Type} {x : Except MetadataError α} {f : α → Except MetadataError β}
    {b : β} (h : x >>= f = .ok b) : ∃ a, x = .ok a ∧ f a = .ok b := by
  cases x with
  | error e => cases h
  | ok a => exact ⟨a, rfl, h⟩

/-- The places of error types that a document gives are missing or numbers. -/
theorem isPlace_of_ofJson {v : Json} {m : Metadata} (h : ofJson v = .ok m) :
    ∀ p ∈ m.pallets, isPlace p.errors = true := by
  unfold ofJson at h
  split at h
  · obtain ⟨lookup, _, h⟩ := exists_of_bind h
    obtain ⟨items, _, h⟩ := exists_of_bind h
    obtain ⟨version, _, h⟩ := exists_of_bind h
    obtain ⟨entries, _, h⟩ := exists_of_bind h
    obtain ⟨pallets, hpallets, h⟩ := exists_of_bind h
    obtain rfl := Except.ok.inj h
    exact isPlace_of_palletsOf hpallets
  · cases h

end Metadata

/-! ## Rendering -/

namespace Scope

open RenderError

variable {s : Scope} {ordinary : Prop} {shape : Shape}

theorem isExcused_unsupported (shape : Shape) (reason : Unsupported) :
    IsExcused ordinary (.unsupported shape reason) :=
  .inl rfl

/-- The names of an ordinary text can be mentioned unless it names no type. -/
theorem isExcused_mention {n : String} (h : ordinary → IsOrdinary n.toList) :
    (s.mention n).AllErrors (IsExcused ordinary) := by
  by_cases ho : ordinary
  · refine allErrors_mentions (q := IsOrdinary) ?_ (fun text e htext he => ?_) _ (h ho)
    · exact fun _ _ htext hparse _ hc => Shape.isOrdinary_type_of_mem htext hparse hc
    · exact .inl (Failure.isForeseen_parse (Shape.isResolution_of_parse htext he))
  · refine allErrors_mentions (q := fun _ => True) ?_ (fun _ e _ _ => ?_) _ trivial
    · exact fun _ _ _ _ _ _ => trivial
    · exact .inr ⟨ho, e, rfl⟩

theorem isExcused_alias (h : shape.Vetted ordinary) {n : String}
    (hn : shape.head.alias? = some n) : (s.mention n).AllErrors (IsExcused ordinary) :=
  isExcused_mention fun ho => (h.here.texts ho).alias hn

/-- A place that is missing or a number leads to an entry, or the failure is foreseen. -/
theorem isExcused_lookup {r : Registry} {index : Json} (hindex : index.key? ≠ none)
    {e : RenderError} (he : lookup r index = .error e) : IsExcused ordinary e := by
  rcases lookup_eq_error he with ⟨_, hnone⟩ | rfl
  · exact absurd hnone hindex
  · exact .inl rfl

theorem isExcused_target {h : Head} (ht : h.isTyped = true) {e : RenderError}
    (he : s.target h = .error e) : IsExcused ordinary e := by
  rcases target_eq_error he with rfl | ⟨index, hindex, hlookup⟩
  · exact .inl rfl
  · have hkey : index.key? ≠ none := by
      unfold targetIndex at hindex
      split at hindex
      · split at hindex
        · obtain rfl := Except.ok.inj hindex
          simp [Json.key?]
        · cases hindex
      · obtain rfl := Except.ok.inj hindex
        exact Metadata.key?_ne_none_of_isPlace (Head.isPlace_of_isTyped ht)
    rcases hlookup with ⟨_, hnone⟩ | rfl
    · exact absurd hnone hkey
    · exact .inl rfl

theorem accounts_of_vetted (h : shape.Vetted ordinary) {t : Shape} (ht : shape.Reaches t) :
    s.Accounts (IsExcused ordinary) t := by
  have hvetted := h.reached ht
  constructor
  · exact isExcused_mention fun ho => (hvetted.here.texts ho).2
  · exact fun c hc n hn => isExcused_alias (hvetted.beneath hc) hn
  · exact fun reason _ => isExcused_unsupported t reason
  · exact fun e he => isExcused_target hvetted.here.typed he

/-- Without cycles, rendering shapes with vetted heads makes excused failures only. -/
theorem isExcused_render (hacyclic : s.registry.Acyclic)
    (hr : ∀ e ∈ s.registry.entries, e.2.Vetted ordinary) (hs : shape.Vetted ordinary)
    (hint : Option String) : (s.render shape hint).AllErrors (IsExcused ordinary) :=
  allErrors_render (fun e he _ => accounts_of_vetted (hr e he)) (hacyclic.acyclicFrom shape)
    (fun _ => accounts_of_vetted hs) hint

theorem isExcused_ofShape (hacyclic : s.registry.Acyclic)
    (hr : ∀ e ∈ s.registry.entries, e.2.Vetted ordinary) (hs : shape.Vetted ordinary) :
    (Declaration.ofShape s shape).AllErrors (IsExcused ordinary) := by
  refine Declaration.allErrors_ofShape (isExcused_unsupported shape) (fun c hc => ?_) ?_
  · have hchild := hs.beneath hc
    exact ⟨fun n hn => isExcused_alias hchild hn, fun _ => isExcused_render hacyclic hr hchild⟩
  · exact isExcused_render hacyclic hr hs.anonymous none

end Scope

end ChainTypings
