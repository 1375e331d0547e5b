import ChainTypings.Document.Source
import ChainTypings.Import.Lines
import ChainTypings.Render.Shape
import ChainTypings.Text.Words

/-!
# The errors document

The error variants of every pallet that declares errors, by pallet, with their documentation. In
a document that is not strict every pallet has one more member, for errors not known by name.
-/

namespace ChainTypings

/-- A pallet: its name, and the place of its error type, if it has one. -/
structure Pallet where
  name : String
  errors : Json := .null

/-- An error of a pallet with its documentation. -/
structure ErrorItem where
  name : String
  docs : List String
  deriving DecidableEq, Repr

/-- The errors of a pallet. -/
structure ErrorModule where
  name : String
  items : List ErrorItem
  deriving DecidableEq, Repr

namespace ErrorModule

/-! ## Collecting the errors of pallets -/

/-- The documentation lines of a shape. They are meant to be texts; what is of another kind is left
out here. -/
def docLines (h : Head) : List String := h.docs.filterMap Json.text?

/-- The errors that variants stand for, in their order; every variant must have a name. -/
def itemsOf (shape : Shape) : List Shape → Except RenderError (List ErrorItem)
  | [] => .ok []
  | variant :: rest =>
    match variant.head.label? with
    | none => .error (.unsupported shape .unnamedError)
    | some name =>
      match itemsOf shape rest with
      | .ok items => .ok (⟨name, docLines variant.head⟩ :: items)
      | .error e => .error e

/-- The variants of an error type, which must be an enumeration. -/
def variantsOf (shape : Shape) : Except RenderError (List Shape) :=
  if shape.head.tag ≠ .enum then .error (.unsupported shape .errorsNotEnum)
  else
    match shape with
    | .single _ _ => .error (.unsupported shape .expectedList)
    | _ => .ok shape.children

/-- Items in ascending order of their names; equal names keep their order. -/
def sortItems (items : List ErrorItem) : List ErrorItem :=
  items.mergeSort fun a b => ImportDef.textLE a.name b.name

/-- The errors of a pallet whose error type is at the given place. -/
def ofPallet (r : Registry) (name : String) (errors : Json) : Except RenderError ErrorModule :=
  match Scope.lookup r errors with
  | .error e => .error e
  | .ok shape =>
    match variantsOf shape with
    | .error e => .error e
    | .ok variants =>
      match itemsOf shape variants with
      | .error e => .error e
      | .ok items => .ok ⟨Text.camel name, sortItems items⟩

/-- The errors of every pallet that declares some, in the order of the pallets. -/
def ofEachPallet (r : Registry) : List Pallet → Except RenderError (List ErrorModule)
  | [] => .ok []
  | p :: ps =>
    if p.errors.isNull then ofEachPallet r ps
    else
      match ofPallet r p.name p.errors with
      | .error e => .error e
      | .ok m =>
        match ofEachPallet r ps with
        | .error e => .error e
        | .ok ms => .ok (m :: ms)

/-- The errors of every pallet that declares some, in the order of their names. -/
def collect (r : Registry) (pallets : List Pallet) : Except RenderError (List ErrorModule) :=
  match ofEachPallet r pallets with
  | .error e => .error e
  | .ok ms => .ok (ms.mergeSort fun a b => ImportDef.textLE a.name b.name)

/-! ## The document -/

/-- One line of a documentation comment. -/
def docLine (line : String) : String :=
  String.ofList (Text.stripEnd ("       * ".toList ++ Text.strip line.toList))

/-- The documentation comment of a member; none without documentation. -/
def docBlock (docs : List String) : List String :=
  if docs.isEmpty then [] else "      /**" :: docs.map docLine ++ ["       **/"]

/-- The lines of a member with its documentation. -/
def memberLines (key : String) (docs : List String) : List String :=
  docBlock docs ++ ["      " ++ key ++ ": AugmentedError<ApiType>;"]

/-- The lines of the member for errors not known by name. -/
def genericLines : List String := memberLines "[key: string]" ["Generic error"]

/-- The lines of a pallet. -/
def lines (strict : Bool) (m : ErrorModule) : List String :=
  ("    " ++ m.name ++ ": \x7b") ::
    m.items.flatMap (fun i => memberLines i.name i.docs) ++
    (if strict then [] else genericLines) ++ ["    \x7d;"]

/-- The lines of the errors document below its imports. -/
def documentLines (strict : Bool) (ms : List ErrorModule) : List String :=
  ["declare module '@polkadot/api/types/errors' \x7b",
   "  export interface AugmentedErrors<ApiType extends ApiTypes> \x7b"] ++
    ms.flatMap (lines strict) ++ ["  \x7d // AugmentedErrors", "\x7d // declare module"]

/-- The text of the errors document. -/
def source (strict : Bool) (ms : List ErrorModule) : String :=
  let imports := ImportDef.lines (Ledger.empty [] []) [⟨ImportDef.apiModule, ["ApiTypes"]⟩]
  Source.assemble imports [String.intercalate "\n" (documentLines strict ms)]

end ErrorModule

end ChainTypings
