import ChainTypings.Import.Ledger

/-!
# Import lines

The import statements of a document: one per file, in the order of the files, each with its names
in ascending order and once each. A file of which nothing is used has no line.
-/

namespace ChainTypings

/-- The names to import from a file. -/
structure ImportDef where
  file : String
  names : List String
  deriving DecidableEq, Repr

namespace ImportDef

/-- The module of the type library. -/
def typesModule : String := "@polkadot/types"

/-- The module of the library's interface types. -/
def interfacesModule : String := "@polkadot/types/types"

/-- The module of the types of the programming interface. -/
def apiModule : String := "@polkadot/api/types"

/-- Tag names that are in the library's tables and yet are no classes. -/
def notExported : List String := ["Tuple", "VecFixed"]

/-- Whether one text may stand before another, by code points. -/
def textLE (a b : String) : Bool := !(decide (b < a))

/-- Texts in ascending order. -/
def sortTexts (names : List String) : List String := names.mergeSort textLE

/-- The names that a category contributes to the base module. -/
def baseNames (l : Ledger) (c : Category) : List String :=
  let names := l.names c.name
  if c = .codec then names.filter (!notExported.contains ·) else names

/-- What the ledger asks to import from each file, with further groups, in the order of the
files. -/
def collect (l : Ledger) (extra : List ImportDef) : List ImportDef :=
  let base : ImportDef := ⟨typesModule, Category.ofBaseModule.flatMap (baseNames l)⟩
  let interfaces : ImportDef := ⟨interfacesModule, l.names Category.types.name⟩
  let files : List ImportDef := l.definitions.map fun d => ⟨d.1, l.names d.1⟩
  (base :: interfaces :: files ++ extra).mergeSort fun a b => textLE a.file b.file

/-- The import statement of a group. -/
def line (d : ImportDef) : String :=
  "import type \x7b " ++ String.intercalate ", " (sortTexts d.names.eraseDups) ++ " \x7d from '" ++
    d.file ++ "';"

/-- The import lines of a ledger. -/
def lines (l : Ledger) (extra : List ImportDef) : List String :=
  ((collect l extra).filter (!·.names.isEmpty)).map line

end ImportDef

end ChainTypings
