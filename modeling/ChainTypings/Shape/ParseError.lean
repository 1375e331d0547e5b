import ChainTypings.Json.Reader
import ChainTypings.Shape.Basic
import ChainTypings.Text.Quoted

/-!
# Why a type text has no shape

The causes, each with what its message shows. Three of them are about values rather than types: a
digit sign where a number is needed, a flag that is no pair, and flags that are no collection.
`ParseError.isResolution` tells them apart from the rest.
-/

namespace ChainTypings

/-- Why a type text has no shape. -/
inductive ParseError where
  /-- Nothing is left of the text in its normal spelling. -/
  | empty (text : String)
  | unbalanced (text : String)
  /-- An inline definition is no JSON. -/
  | malformedInline (text : String) (cause : Json.SyntaxError)
  | inlineNotObject (text : String)
  /-- The variants of an inline enumeration are neither a list nor an object. -/
  | badVariants (text : String)
  | badBitLength (text : String)
  | badFixedLength (text : String)
  /-- A wrapper has the wrong count of arguments. -/
  | wrongArity (tag : Tag) (expected found : Nat) (text : String)
  /-- Digit signs that spell no number. -/
  | notNumber (digits : String)
  /-- A flag of an inline set, at an index of a list, is not a pair but of another length. -/
  | unevenFlag (index length : Nat)
  /-- The flags of an inline set are no collection of pairs with usable names. -/
  | badFlags
  deriving DecidableEq

/-- The wording for text that spells no whole number; long text is cut off. -/
def notNumberMessage (text : String) : String :=
  "invalid literal for int() with base 10: " ++
    String.ofList ((Text.quoted text.toList).take 200)

namespace ParseError

/-- The wording of a parse error. Flags that are no collection have none. -/
def message : ParseError → String
  | empty text => "Unable to resolve empty type " ++ Text.quote text
  | unbalanced text => "Unbalanced brackets in type " ++ Text.quote text
  | malformedInline text cause =>
    "Invalid inline definition " ++ Text.quote text ++ ": " ++ cause.message
  | inlineNotObject text => "Inline definition " ++ Text.quote text ++ " must be an object"
  | badVariants text => "Invalid _enum in " ++ Text.quote text
  | badBitLength text => "Expected a bit length in " ++ Text.quote text
  | badFixedLength text => "Invalid fixed length in " ++ Text.quote text
  | wrongArity tag expected found text =>
    tag.name ++ " expects " ++ toString expected ++ " type argument(s), found " ++
      toString found ++ " in " ++ Text.quote text
  | notNumber digits => notNumberMessage digits
  | unevenFlag index length =>
    "dictionary update sequence element #" ++ toString index ++ " has length " ++
      toString length ++ "; 2 is required"
  | badFlags => ""

/-- Whether the error says that a text names no type, rather than that a value has a wrong form. -/
def isResolution : ParseError → Bool
  | notNumber _ => false
  | unevenFlag _ _ => false
  | badFlags => false
  | _ => true

end ParseError

end ChainTypings
