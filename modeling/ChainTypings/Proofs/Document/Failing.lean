import ChainTypings.Document.Errors
import ChainTypings.Proofs.Document.Closed
import ChainTypings.Proofs.Render.Errors

/-!
# How a document fails

The lookup document fails where the entries have no order and where one of them cannot be declared;
a declaration fails as rendering its parts does, and because of a shape that is not what it has to
be. The errors document fails where a pallet's place leads nowhere and again because of a shape.
-/

namespace ChainTypings

namespace Declaration

open Scope

variable {s : Scope} {p : RenderError → Prop} {shape : Shape}

theorem allErrors_fields {qs : List Part} (h : ∀ q ∈ qs, s.AccountsPart p q) (index : Nat) :
    (fields s index qs).AllErrors p := by
  induction qs generalizing index with
  | nil => exact .done _
  | cons q qs ih =>
    have hqs := ih (fun q' hq' => h q' (List.mem_cons_of_mem _ hq')) (index + 1)
    exact (h q (by simp)).renderMember.andThen fun _ => hqs.map _

theorem allErrors_variantMembers (hshape : ∀ reason, p (.unsupported shape reason))
    {qs : List Part} (h : ∀ q ∈ qs, s.AccountsPart p q) :
    (variantMembers s shape qs).AllErrors p := by
  induction qs with
  | nil => exact .done _
  | cons q qs ih =>
    have hqs := ih fun q' hq' => h q' (List.mem_cons_of_mem _ hq')
    unfold variantMembers
    split
    · exact .fail (hshape _)
    · dsimp only
      split
      · exact (Trail.AllErrors.done _).andThen fun _ => hqs.map _
      · refine (h q (by simp)).renderMember.andThen fun _ => ?_
        exact (Trail.AllErrors.done _).andThen fun _ => hqs.map _

/-- A declaration fails as mentioning or rendering a part does, or rendering the shape without its
declared name, or because of the shape itself. -/
theorem allErrors_ofShape (hshape : ∀ reason, p (.unsupported shape reason))
    (hparts : ∀ c ∈ shape.children, s.AccountsPart p ⟨c.head, s.render c⟩)
    (hbase : (s.render shape.anonymous none).AllErrors p) : (ofShape s shape).AllErrors p := by
  have list : ∀ f : List Part → Trail Declaration,
      (∀ qs, (∀ q ∈ qs, s.AccountsPart p q) → (f qs).AllErrors p) →
        ((parts s shape).andThen f).AllErrors p := by
    intro f hf
    rcases parts_cases s shape with hp | hp
    · rw [hp]
      exact .fail (hshape _)
    · rw [hp, Trail.done_andThen]
      refine hf _ fun q hq => ?_
      obtain ⟨c, hc, rfl⟩ := List.mem_map.1 hq
      exact hparts c hc
  unfold ofShape
  dsimp only
  split
  · refine (allErrors_marker (by decide)).andThen fun _ => list _ fun qs hqs => ?_
    exact (allErrors_fields hqs 0).map _
  · refine (allErrors_marker (by decide)).andThen fun _ => list _ fun qs hqs => ?_
    exact (allErrors_variantMembers hshape hqs).map _
  · exact hbase.map _

end Declaration

/-- There is no lookup document where the entries have no order or one cannot be declared. -/
theorem Lookup.source_eq_error {r : Registry} {definitions : Definitions} {f : Lookup.Failure}
    (h : source r definitions = .error f) :
    f = .unorderedIndices ∧ r.shapes? = none ∨ ∃ e, f = .render e ∧ ∃ entry ∈ r.entries,
      ∃ ignored, (Declaration.ofShape ⟨r, ignored⟩ entry.2).outcome = .error e := by
  unfold source at h
  split at h
  · next hnone => exact .inl ⟨(Except.error.inj h).symm, hnone⟩
  · next entries hentries =>
    dsimp only at h
    split at h
    · next e he =>
      refine .inr ⟨e, (Except.error.inj h).symm, ?_⟩
      have hall : (declareAll r (namedEntries entries)).AllErrors fun e => ∃ entry ∈ r.entries,
          ∃ ignored, (Declaration.ofShape ⟨r, ignored⟩ entry.2).outcome = .error e := by
        refine Trail.AllErrors.mapEach fun shape hshape e he => ?_
        obtain ⟨⟨entry, hentry, rfl⟩, _⟩ := (mem_namedEntries hentries).1 hshape
        exact ⟨entry, hentry, _, he⟩
      exact hall e he
    · cases h

namespace ErrorModule

variable {r : Registry} {e : RenderError}

theorem itemsOf_eq_error {shape : Shape} {variants : List Shape}
    (h : itemsOf shape variants = .error e) : ∃ reason, e = .unsupported shape reason := by
  induction variants with
  | nil => cases h
  | cons variant rest ih =>
    unfold itemsOf at h
    split at h
    · exact ⟨_, (Except.error.inj h).symm⟩
    · split at h
      · cases h
      · next hrest =>
        obtain rfl := Except.error.inj h
        exact ih hrest

theorem variantsOf_eq_error {shape : Shape} (h : variantsOf shape = .error e) :
    ∃ reason, e = .unsupported shape reason := by
  unfold variantsOf at h
  split at h
  · exact ⟨_, (Except.error.inj h).symm⟩
  · split at h
    · exact ⟨_, (Except.error.inj h).symm⟩
    · cases h

theorem ofPallet_eq_error {name : String} {place : Json} (h : ofPallet r name place = .error e) :
    Scope.lookup r place = .error e ∨ ∃ shape reason, e = .unsupported shape reason := by
  unfold ofPallet at h
  split at h
  · next hlookup =>
    obtain rfl := Except.error.inj h
    exact .inl hlookup
  · next shape _ =>
    refine .inr ⟨shape, ?_⟩
    split at h
    · next hvariants =>
      obtain rfl := Except.error.inj h
      exact variantsOf_eq_error hvariants
    · split at h
      · next hitems =>
        obtain rfl := Except.error.inj h
        exact itemsOf_eq_error hitems
      · cases h

/-- The errors of pallets cannot be told where a place leads nowhere or a shape is not what it has
to be. -/
theorem ofEachPallet_eq_error {pallets : List Pallet} (h : ofEachPallet r pallets = .error e) :
    (∃ q ∈ pallets, Scope.lookup r q.errors = .error e) ∨
      ∃ shape reason, e = .unsupported shape reason := by
  induction pallets with
  | nil => cases h
  | cons q qs ih =>
    have later : ofEachPallet r qs = .error e →
        (∃ q' ∈ q :: qs, Scope.lookup r q'.errors = .error e) ∨
          ∃ shape reason, e = .unsupported shape reason := by
      intro hrest
      refine (ih hrest).imp_left ?_
      rintro ⟨q', hq', hlookup⟩
      exact ⟨q', List.mem_cons_of_mem _ hq', hlookup⟩
    unfold ofEachPallet at h
    split at h
    · exact later h
    · split at h
      · next hpallet =>
        obtain rfl := Except.error.inj h
        exact (ofPallet_eq_error hpallet).imp_left fun hlookup => ⟨q, List.mem_cons_self, hlookup⟩
      · split at h
        · next hrest =>
          obtain rfl := Except.error.inj h
          exact later hrest
        · cases h

theorem collect_eq_error {pallets : List Pallet} (h : collect r pallets = .error e) :
    ofEachPallet r pallets = .error e := by
  unfold collect at h
  split at h
  · next heach =>
    obtain rfl := Except.error.inj h
    exact heach
  · cases h

end ErrorModule

end ChainTypings
