import ChainTypings.Proofs.Document.Failing
import ChainTypings.Proofs.Render.Stepwise
import ChainTypings.Proofs.Session.Failing

/-!
# Rendering ends where cycles pass through names

The entries of a registry refer to each other, and real ones do so in cycles: a structure holds a
vector of itself. What stops rendering there is a name. An entry that is rendered as the name under
which it is declared leads nowhere, so a cycle does no harm if it passes through such an entry.
Where a rank falls along every other reference that is met in an entry (`Registry.Ranked`), no
indirection leads back to where it came from (`Ranked.acyclic`).

Then rendering is a recursion that needs no bound and makes finitely many calls, and neither
formatting a type nor declaring an entry is endless (`Call.ends_of_ranked`).
-/

namespace ChainTypings

open Relation

/-! ## What an entry refers to -/

namespace Shape

mutual

/-- The shape and those beneath it, down to the ones that are referred to by a declared name. -/
def walk : Shape → List Shape
  | .leaf h => [.leaf h]
  | .single h c => .single h c :: if c.head.alias?.isSome then [] else walk c
  | .group h cs => .group h cs :: walkEach cs

/-- The shapes among several, and those beneath, that are not referred to by a declared name. -/
def walkEach : List Shape → List Shape
  | [] => []
  | c :: cs => (if c.head.alias?.isSome then [] else walk c) ++ walkEach cs

end

theorem mem_walk_self (s : Shape) : s ∈ s.walk := by
  cases s with
  | leaf h => exact List.mem_cons_self
  | single h c => exact List.mem_cons_self
  | group h cs => exact List.mem_cons_self

theorem mem_walk_of_mem_children {s c t : Shape} (hc : c ∈ s.children)
    (hn : c.head.alias? = none) (ht : t ∈ c.walk) : t ∈ s.walk := by
  have hopen : c.head.alias?.isSome = false := by rw [hn]; rfl
  cases s with
  | leaf h => exact absurd hc List.not_mem_nil
  | single h d =>
    obtain rfl := List.mem_singleton.1 hc
    rw [walk, hopen]
    exact List.mem_cons_of_mem _ ht
  | group h cs =>
    refine List.mem_cons_of_mem _ ?_
    have hc : c ∈ cs := hc
    show t ∈ walkEach cs
    induction cs with
    | nil => exact absurd hc List.not_mem_nil
    | cons d cs ih =>
      rw [walkEach]
      rcases List.mem_cons.1 hc with rfl | hc
      · rw [hopen]
        exact List.mem_append_left _ ht
      · exact List.mem_append_right _ (ih hc hc)

theorem Reaches.mem_walk {s t : Shape} (h : s.Reaches t) : t ∈ s.walk := by
  induction h with
  | refl s => exact s.mem_walk_self
  | beneath _ hc hn _ ih => exact mem_walk_of_mem_children hc hn ih

/-- A shape that is rendered as its name leads nowhere. -/
theorem Reaches.eq_of_isNamed {s t : Shape} (h : s.Reaches t) (hs : s.isNamed = true) : t = s := by
  cases h with
  | refl => rfl
  | beneath hnamed => exact absurd hs (by rw [hnamed]; exact Bool.false_ne_true)

theorem isNamed_eq_false_of_si {s : Shape} (h : s.head.tag = .si) : s.isNamed = false := by
  rw [isNamed, h]
  rfl

end Shape

namespace Registry

variable {r : Registry}

/-- The entry that an indirection leads to, with its index. -/
def entryAt? (r : Registry) (h : Head) : Option (Json.Key × Shape) :=
  match Scope.targetIndex h with
  | .ok index => index.key?.bind fun key => r.entries.find? fun entry => entry.1.same key
  | .error _ => none

theorem exists_entryAt? {ignored : List String} {h : Head} {entry : Shape}
    (htarget : Scope.target ⟨r, ignored⟩ h = .ok entry) :
    ∃ k, r.entryAt? h = some (k, entry) ∧ (k, entry) ∈ r.entries := by
  unfold Scope.target at htarget
  split at htarget
  · next index hindex =>
    unfold Scope.lookup at htarget
    split at htarget
    · cases htarget
    · next key hkey =>
      split at htarget
      · next hfind =>
        obtain rfl := Except.ok.inj htarget
        obtain ⟨⟨k, found⟩, hfound, rfl⟩ := Option.map_eq_some_iff.1 hfind
        refine ⟨k, ?_, List.mem_of_find?_eq_some hfound⟩
        simp only [entryAt?, hindex, hkey, Option.bind_some, hfound]
      · cases htarget
  · cases htarget

/-- The rank falls along every reference that is met in an entry, unless it leads to an entry that
is rendered as its name. -/
def Ranked {α : Type} [LT α] (r : Registry) (rank : Json.Key → α) : Prop :=
  ∀ e ∈ r.entries, ∀ t ∈ e.2.walk, t.head.tag = .si →
    ∀ e' ∈ r.entryAt? t.head, e'.2.isNamed = false → rank e'.1 < rank e.1

theorem isNamed_eq_false_of_leads {shape entry : Shape} (h : r.Leads shape entry) :
    shape.isNamed = false := by
  obtain ⟨t, ht, hsi, -⟩ := h
  by_contra hnamed
  rw [Bool.not_eq_false] at hnamed
  rw [ht.eq_of_isNamed hnamed] at hsi
  rw [Shape.isNamed_eq_false_of_si hsi] at hnamed
  exact Bool.false_ne_true hnamed

variable {α : Type} [Preorder α] {rank : Json.Key → α}

/-- Wherever an entry stands, what it leads to stands at a lower rank. -/
theorem Ranked.step (h : r.Ranked rank) {shape entry : Shape} (hleads : r.Leads shape entry)
    (hnamed : entry.isNamed = false) :
    ∃ k, (k, entry) ∈ r.entries ∧ ∀ k', (k', shape) ∈ r.entries → rank k < rank k' := by
  obtain ⟨t, ht, hsi, htarget⟩ := hleads
  obtain ⟨k, hk, hmem⟩ := exists_entryAt? htarget
  refine ⟨k, hmem, ?_⟩
  intro k' hshape
  exact h _ hshape t ht.mem_walk hsi _ hk hnamed

/-- No indirection leads back to where it came from. -/
theorem Ranked.acyclic (h : r.Ranked rank) : r.Acyclic := by
  intro shape hcycle
  obtain ⟨first, hfirst, -⟩ := TransGen.head'_iff.1 hcycle
  obtain ⟨last, hpath, hlast⟩ := TransGen.tail'_iff.1 hcycle
  -- the shape stands at the index where the last indirection leads, and above all on the cycle
  obtain ⟨k, hk, hbelow⟩ := h.step hlast (isNamed_eq_false_of_leads hfirst)
  have descends : ∀ {entry}, ReflTransGen r.Leads shape entry → entry.isNamed = false →
      ∃ j, (j, entry) ∈ r.entries ∧ rank j ≤ rank k := by
    intro entry hchain
    induction hchain with
    | refl => exact fun _ => ⟨k, hk, le_refl _⟩
    | tail hchain hleads ih =>
      intro hnamed
      obtain ⟨i, hi, hle⟩ := ih (isNamed_eq_false_of_leads hleads)
      obtain ⟨j, hj, hlt⟩ := h.step hleads hnamed
      exact ⟨j, hj, ((hlt i hi).trans_le hle).le⟩
  obtain ⟨j, hj, hle⟩ := descends hpath (isNamed_eq_false_of_leads hlast)
  exact absurd (hbelow j hj) (not_lt_of_ge hle)

end Registry

/-! ## No call is endless -/

namespace Scope

variable {s : Scope}

/-- No node makes rendering endless by itself. -/
theorem accounts_ne_endless (shape : Shape) : s.Accounts (· ≠ .endless) shape := by
  have mention : ∀ type, (s.mention type).AllErrors (· ≠ .endless) := by
    intro type
    refine allErrors_mentions (q := fun _ => True) (fun _ _ _ _ _ _ => trivial) ?_ _ trivial
    intro _ _ _ _
    exact RenderError.noConfusion
  refine ⟨mention _, fun _ _ n _ => mention n, fun _ _ => RenderError.noConfusion, ?_⟩
  rintro e he rfl
  rcases target_eq_error he with h | ⟨_, _, ⟨h, _⟩ | h⟩ <;> cases h

theorem ne_endless_render {shape : Shape} (hacyclic : s.registry.AcyclicFrom shape)
    (hint : Option String) : (s.render shape hint).AllErrors (· ≠ .endless) :=
  allErrors_render (fun _ _ t _ => accounts_ne_endless t) hacyclic
    (fun t _ => accounts_ne_endless t) hint

variable (hacyclic : s.registry.Acyclic)

include hacyclic

theorem ne_endless_format (layout : Layout) (input : TypeInput) (hint : Option String) :
    (s.format layout input hint).AllErrors (· ≠ .endless) := by
  refine Trail.AllErrors.map ?_ _
  cases input with
  | shape shape => exact ne_endless_render (hacyclic.acyclicFrom shape) hint
  | text t =>
    unfold expression
    dsimp only
    split
    · exact .done _
    · split
      · next shape _ => exact ne_endless_render (hacyclic.acyclicFrom shape) hint
      · next e hresolve =>
        refine .fail ?_
        rintro rfl
        rcases Registry.resolve_eq_error hresolve with ⟨_, h⟩ | ⟨_, h⟩ <;> cases h

theorem ne_endless_ofShape (shape : Shape) :
    (Declaration.ofShape s shape).AllErrors (· ≠ .endless) := by
  refine Declaration.allErrors_ofShape (fun _ => RenderError.noConfusion) ?_ ?_
  · intro c hc
    refine ⟨?_, fun _ hint => ne_endless_render (hacyclic.acyclicFrom c) hint⟩
    intro n hn
    exact (accounts_ne_endless shape).aliases c hc n hn
  · exact ne_endless_render (hacyclic.acyclicFrom shape.anonymous) none

end Scope

namespace Call

/-- Where a rank falls along the references of the entries, but for those to entries that are
rendered as their names, rendering any shape makes finitely many calls, it is the recursion over
these calls, and neither formatting a type nor declaring a shape is endless. -/
theorem ends_of_ranked {α : Type} [Preorder α] (r : Registry) (rank : Json.Key → α)
    (h : r.Ranked rank) :
    (∀ shape, ∃ n, r.Visits n shape) ∧
    (∀ ignored shape hint render,
      (∀ callee ∈ r.calls shape, render callee = Scope.render ⟨r, ignored⟩ callee) →
        Scope.render ⟨r, ignored⟩ shape hint = Scope.renderBy ⟨r, ignored⟩ render shape hint) ∧
    (∀ l layout input hint, (format r layout input hint).outcome l ≠ .error .endless) ∧
    ∀ l shape, (declare r shape).outcome l ≠ .error .endless := by
  have hacyclic := h.acyclic
  refine ⟨Registry.exists_visits hacyclic, ?_, ?_, ?_⟩
  · intro ignored shape hint render hrender
    rw [Scope.render_eq_renderBy hacyclic]
    exact (Scope.renderBy_congr hrender hint).symm
  · intro l layout input hint houtcome
    rw [outcome_eq _ fun _ => Iff.rfl] at houtcome
    have herrors := Scope.ne_endless_format (s := ⟨r, l.ignored⟩) hacyclic layout input hint
    exact (herrors.map some) _ houtcome rfl
  · intro l shape houtcome
    rw [outcome_eq _ fun _ => Iff.rfl] at houtcome
    have herrors := Scope.ne_endless_ofShape (s := ⟨r, l.ignored⟩) hacyclic shape
    exact (herrors.map fun d => some d.print) _ houtcome rfl

/-- A structure that holds a vector of itself under its name, an option of it, and a pair of both:
the only cycles pass through the name. -/
def forestRegistry : Registry where
  entries :=
    [(.number 0 0,
      .group { tag := .struct, type := "Node", lookupName := .str "Node", lookupIndex := .int 0 }
        [.single { tag := .vec, type := "Vec<Lookup0>", name := .str "children" } (toEntry 0),
         .leaf { tag := .si, type := "Lookup1", name := .str "parent", lookupIndex := .int 1 }]),
     (.number 1 0, .single { tag := .option, type := "Option<Lookup0>", lookupIndex := .int 1 }
        (toEntry 0)),
     (.number 2 0, .group { tag := .tuple, type := "(Lookup0,Lookup1)", lookupIndex := .int 2 }
        [toEntry 0, toEntry 1])]
where
  /-- A reference to the entry at an index. -/
  toEntry (index : Int) : Shape := .leaf { tag := .si, type := "Lookup", lookupIndex := .int index }

/-- The option stands below the others: what it leads to is rendered as its name. -/
def forestRank (index : Json.Key) : Nat := if index = .number 1 0 then 0 else 1

/-- Two entries of the forest: the pair, which is rendered through all others, and the structure,
which is declared. -/
theorem ends_forestRegistry : forestRegistry.Ranked forestRank ∧
    (∃ n, forestRegistry.Visits n (forestRegistry.toEntry 2)) ∧
    (format forestRegistry .oneLine (.shape (forestRegistry.toEntry 2)) none).outcome
      (.empty [] []) ≠ .error .endless ∧
    ∀ e ∈ forestRegistry.entries,
      (declare forestRegistry e.2).outcome (.empty [] []) ≠ .error .endless := by
  have hranked : forestRegistry.Ranked forestRank := by
    unfold Registry.Ranked
    decide +kernel
  obtain ⟨hvisits, -, hformat, hdeclare⟩ := ends_of_ranked forestRegistry forestRank hranked
  exact ⟨hranked, hvisits _, hformat _ _ _ _, fun e _ => hdeclare _ e.2⟩

end Call

end ChainTypings
