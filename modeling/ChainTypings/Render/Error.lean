import ChainTypings.Json.Display
import ChainTypings.Shape.Description
import ChainTypings.Shape.ParseError

/-!
# Why a type cannot be rendered

A type text may have no shape or name an unknown type, an index may lead nowhere, and a shape may
lack what its rule needs or have no rule at all. A shape that cannot be rendered is shown in full.
-/

namespace ChainTypings

/-- What is wrong with a shape that cannot be rendered. -/
inductive Unsupported where
  | noRule
  | expectedOne
  | expectedList
  | expectedTwo
  | unnamedVariant
  | unnamedError
  | errorsNotEnum
  deriving DecidableEq, Repr

/-- The wording of what is wrong with a shape. -/
def Unsupported.message : Unsupported → String
  | noRule => "Not implemented"
  | expectedOne => "Expected a single sub type"
  | expectedList => "Expected a list of sub types"
  | expectedTwo => "Expected two sub types"
  | unnamedVariant => "Enum variant without a name"
  | unnamedError => "Error variant without a name"
  | errorsNotEnum => "Pallet errors must be an enum"

/-- Why a type cannot be rendered. -/
inductive RenderError where
  | parse (cause : ParseError)
  | unknownType (name : String)
  | unknownIndex (index : Json)
  /-- The index is a list or an object. -/
  | unusableIndex (index : Json)
  /-- An indirection has no index and its text gives none. -/
  | noIndex (type : String)
  | unsupported (shape : Shape) (reason : Unsupported)
  /-- An indirection leads back to an entry that is being rendered. -/
  | endless

namespace RenderError

/-- The wording of a render error. -/
def message : RenderError → String
  | parse cause => cause.message
  | unknownType name => "Unknown type " ++ Text.quote name
  | unknownIndex index => "Unknown lookup index " ++ index.bare
  | unusableIndex _ => ""
  | noIndex type => "Indirection " ++ Text.quote type ++ " carries no lookup index"
  | unsupported shape reason =>
    "TypeDefInfo." ++ shape.head.tag.name ++ ": " ++ reason.message ++ " on " ++ shape.dump
  | endless => ""

end RenderError

end ChainTypings
