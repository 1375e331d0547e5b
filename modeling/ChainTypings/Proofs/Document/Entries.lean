import ChainTypings.Metadata
import ChainTypings.Registry

/-!
# The registry of a document

The entries of a registry are the shapes that it is made of, each under the key of its index. If
every index is an integer or a truth value, so is every key a number: then all entries have an
order, and a registry is refused only for a missing index or one that is given twice.
-/

namespace ChainTypings

open Json (Key)

namespace Metadata

/-- A value that may be the place of an error type is missing or a number. -/
theorem key?_of_isPlace {v : Json} (h : isPlace v = true) :
    v.key? = some .absent ∨ ∃ n, v.key? = some (.number n 0) := by
  cases v with
  | null => exact .inl rfl
  | int n => exact .inr ⟨n, rfl⟩
  | bool b => exact .inr ⟨if b then 1 else 0, rfl⟩
  | float _ => cases h
  | str _ => cases h
  | arr _ => cases h
  | obj _ => cases h

theorem key?_ne_none_of_isPlace {v : Json} (h : isPlace v = true) : v.key? ≠ none := by
  rcases key?_of_isPlace h with hkey | ⟨n, hkey⟩
  · simp [hkey]
  · simp [hkey]

end Metadata

namespace Registry

variable {entries entries' : List (Key × Shape)} {shapes : List Shape} {known : List String}

/-- An entry of the shape under the key of its index. -/
def Files (s : Shape) (e : Key × Shape) : Prop :=
  e.2 = s ∧ s.head.lookupIndex.key? = some e.1 ∧ e.1 ≠ .absent

/-- Whatever is an entry after adding was one before or is one of the added shapes. -/
theorem exists_of_mem_addEntries (h : addEntries entries shapes = .ok entries')
    {e : Key × Shape} (he : e ∈ entries') : e ∈ entries ∨ ∃ s ∈ shapes, Files s e := by
  induction shapes generalizing entries with
  | nil =>
    obtain rfl := Except.ok.inj h
    exact .inl he
  | cons s rest ih =>
    unfold addEntries at h
    dsimp only at h
    split at h
    · cases h
    · cases h
    · next key habsent hkey =>
      split at h
      · cases h
      · rcases ih h with hmem | ⟨t, ht, hfiles⟩
        · rcases List.mem_append.1 hmem with hmem | hmem
          · exact .inl hmem
          · obtain rfl := List.mem_singleton.1 hmem
            exact .inr ⟨s, List.mem_cons_self, rfl, hkey, habsent⟩
        · exact .inr ⟨t, List.mem_cons_of_mem _ ht, hfiles⟩

/-- Adding entries fails at a shape whose index is missing, no key or already taken. -/
theorem addEntries_eq_error {e : RegistryError} (h : addEntries entries shapes = .error e) :
    ∃ s ∈ shapes, e = .noIndex s.head.type ∨ e = .duplicateIndex s.head.lookupIndex ∨
      e = .unusableIndex s.head.lookupIndex ∧ s.head.lookupIndex.key? = none := by
  induction shapes generalizing entries with
  | nil => cases h
  | cons s rest ih =>
    unfold addEntries at h
    dsimp only at h
    split at h
    · exact ⟨s, List.mem_cons_self, .inl (Except.error.inj h).symm⟩
    · next hkey => exact ⟨s, List.mem_cons_self, .inr (.inr ⟨(Except.error.inj h).symm, hkey⟩)⟩
    · split at h
      · exact ⟨s, List.mem_cons_self, .inr (.inl (Except.error.inj h).symm)⟩
      · obtain ⟨s', hs', he⟩ := ih h
        exact ⟨s', List.mem_cons_of_mem _ hs', he⟩

theorem ofShapes_eq_error {e : RegistryError} (h : ofShapes shapes known = .error e) :
    addEntries [] shapes = .error e := by
  unfold ofShapes at h
  split at h
  · next hadd =>
    obtain rfl := Except.error.inj h
    exact hadd
  · cases h

/-- A registry holds entries that could all be added, and knows the names that they declare beside
those of the library and those given. -/
theorem exists_of_ofShapes {r : Registry} (h : ofShapes shapes known = .ok r) :
    ∃ entries, addEntries [] shapes = .ok entries ∧
      r = { entries
            known := Category.builtins ++ known ++ entries.filterMap fun e => e.2.head.alias? } := by
  unfold ofShapes at h
  split at h
  · cases h
  · next hadd => exact ⟨_, hadd, (Except.ok.inj h).symm⟩

/-- Every entry of a registry is one of the shapes that it is made of, under the key of its
index. -/
theorem exists_of_mem_ofShapes {r : Registry} (h : ofShapes shapes known = .ok r)
    {e : Key × Shape} (he : e ∈ r.entries) : ∃ s ∈ shapes, Files s e := by
  obtain ⟨entries, hadd, rfl⟩ := exists_of_ofShapes h
  exact (exists_of_mem_addEntries hadd he).resolve_left List.not_mem_nil

/-- The names that can be resolved are those of the library, those given and those that entries
declare. -/
theorem isKnown_ofShapes {r : Registry} (h : ofShapes shapes known = .ok r) {n : String} :
    r.isKnown n = true ↔
      (n ∈ Category.builtins ∨ n ∈ known) ∨ ∃ e ∈ r.entries, e.2.head.alias? = some n := by
  obtain ⟨entries, -, rfl⟩ := exists_of_ofShapes h
  simp [isKnown, or_assoc]

/-- Entries of which every index is a number have an order. -/
theorem shapes?_isSome {r : Registry}
    (h : ∀ e ∈ r.entries, ∃ n, e.1 = .number n 0) : r.shapes?.isSome = true := by
  have hordered : r.isOrdered = true := by
    unfold isOrdered
    split
    · rfl
    · next first rest hentries =>
      rw [List.all_eq_true]
      intro e he
      obtain ⟨n, hn⟩ := h first (by simp [hentries])
      obtain ⟨m, hm⟩ := h e (by simp [hentries, he])
      rw [hn, hm, Key.before?_int]
      rfl
  rw [shapes?, if_pos hordered]
  rfl

end Registry

end ChainTypings
