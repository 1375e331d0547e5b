import ChainTypings.Import.Category
import ChainTypings.Json.Key
import ChainTypings.Shape.Basic
import ChainTypings.Shape.Parse
import ChainTypings.Sorting

/-!
# The registry

The entries of a metadata document by their lookup index, and the type names that can be resolved:
those of the type library, the declared names of the entries and names given beside. Every entry
has an index and no two share one, so an index stands for one shape; `exists_mem_of_find?` says
that the shape under an index is an entry.
-/

namespace ChainTypings

/-- Why entries make no registry. -/
inductive RegistryError where
  | noIndex (type : String)
  | duplicateIndex (index : Json)
  /-- The index is a list or an object. -/
  | unusableIndex (index : Json)

namespace RegistryError

/-- The wording of a registry error. An unusable index has none. -/
def message : RegistryError → String
  | noIndex type => "Lookup entry " ++ Text.quote type ++ " has no lookupIndex"
  | duplicateIndex index => "Duplicate lookupIndex " ++ index.bare
  | unusableIndex _ => ""

end RegistryError

/-- The entries of a metadata document under their keys, and the names that can be resolved. -/
structure Registry where
  entries : List (Json.Key × Shape) := []
  known : List String := []

namespace Registry

/-- The entry under a key. -/
def find? (entries : List (Json.Key × Shape)) (key : Json.Key) : Option Shape :=
  (entries.find? fun entry => entry.1.same key).map (·.2)

theorem exists_mem_of_find? {entries : List (Json.Key × Shape)} {key : Json.Key} {s : Shape}
    (h : find? entries key = some s) : ∃ k, (k, s) ∈ entries ∧ k.same key = true := by
  obtain ⟨⟨k, s'⟩, he, rfl⟩ := Option.map_eq_some_iff.1 h
  have hk := List.find?_some he
  exact ⟨k, List.mem_of_find?_eq_some he, hk⟩

/-- Adds entries, in order. -/
def addEntries (entries : List (Json.Key × Shape)) :
    List Shape → Except RegistryError (List (Json.Key × Shape))
  | [] => .ok entries
  | s :: rest =>
    let index := s.head.lookupIndex
    match index.key? with
    | some .absent => .error (.noIndex s.head.type)
    | none => .error (.unusableIndex index)
    | some key =>
      match find? entries key with
      | some _ => .error (.duplicateIndex index)
      | none => addEntries (entries ++ [(key, s)]) rest

/-- The registry of the given entries, with further names that can be resolved. -/
def ofShapes (shapes : List Shape) (known : List String) : Except RegistryError Registry :=
  match addEntries [] shapes with
  | .error e => .error e
  | .ok entries =>
    .ok
      { entries
        known := Category.builtins ++ known ++ entries.filterMap fun e => e.2.head.alias? }

/-- Whether a name can be resolved. -/
def isKnown (r : Registry) (name : String) : Bool := r.known.contains name

/-- Whether the index of an entry is less than that of another. -/
def entryBefore (a b : Json.Key × Shape) : Bool := (a.1.before? b.1).getD false

/-- Whether any two of the entries have an order: none is a text while another is a number. -/
def isOrdered (r : Registry) : Bool :=
  match r.entries with
  | [] => true
  | e :: rest => rest.all fun e' => (e.1.before? e'.1).isSome

/-- The entries in ascending order of their indices; none if the indices have no order. -/
def shapes? (r : Registry) : Option (List Shape) :=
  if r.isOrdered then some ((Sorting.sort entryBefore r.entries).map (·.2)) else none

/-! ## Names in a shape -/

mutual

/-- The plain types of a shape that cannot be resolved, leftmost first. The flags of a set are no
types. -/
def unknownNames (r : Registry) : Shape → List String
  | .leaf h => unknownHead r h
  | .single h c => unknownHead r h ++ if h.tag = .set then [] else unknownNames r c
  | .group h cs => unknownHead r h ++ if h.tag = .set then [] else unknownNamesList r cs

/-- The plain types of several shapes that cannot be resolved. -/
def unknownNamesList (r : Registry) : List Shape → List String
  | [] => []
  | c :: cs => unknownNames r c ++ unknownNamesList r cs

/-- The type of a plain head, if it cannot be resolved. -/
def unknownHead (r : Registry) (h : Head) : List String :=
  if h.tag = .plain ∧ r.isKnown h.type = false then [h.type] else []

end

end Registry

end ChainTypings
