import ChainTypings.Document.Declaration
import ChainTypings.Document.Source
import ChainTypings.Import.Lines

/-!
# The lookup document

One declaration for every entry that has a declared name, in the order of the names and, among
equal names, of the indices. What the document declares it does not import.
-/

namespace ChainTypings.Lookup

/-- Why there is no lookup document. -/
inductive Failure where
  /-- The indices of the entries have no order. -/
  | unorderedIndices
  | render (e : RenderError)

/-- Whether one entry may stand before another in the order of declared names. -/
def nameLE (a b : Shape) : Bool :=
  ImportDef.textLE (a.head.alias?.getD "") (b.head.alias?.getD "")

/-- The entries with a declared name, in the order of their declarations. -/
def namedEntries (entries : List Shape) : List Shape :=
  (entries.filter fun s => s.head.alias?.isSome).mergeSort nameLE

/-- The declared names of entries. -/
def namesOf (entries : List Shape) : List String := entries.filterMap fun s => s.head.alias?

/-- The text of the lookup document. -/
def source (r : Registry) (definitions : Definitions) : Except Failure String :=
  match r.shapes? with
  | none => .error .unorderedIndices
  | some entries =>
    let named := namedEntries entries
    let scope : Scope := ⟨r, namesOf named⟩
    let trail := Trail.mapEach (Declaration.ofShape scope) named
    match trail.outcome with
    | .error e => .error (.render e)
    | .ok declarations =>
      let ledger := (Ledger.empty definitions scope.ignored).recordAll trail.names
      .ok (Source.assemble (ImportDef.lines ledger []) (declarations.map Declaration.print))

end ChainTypings.Lookup
