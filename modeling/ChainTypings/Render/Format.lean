import ChainTypings.Render.Shape

/-!
# Formatting types

A type, given as text or as a shape, in one of the two layouts. On one line a text that already
reads as an inline expression is taken over as it is, without being resolved; an array of fixed
length never is, for its text is no expression of the target language.
-/

namespace ChainTypings

open Text

/-! ## Inline expressions -/

namespace Shortcut

/-- The first line of a text. -/
def firstLine (cs : List Char) : List Char := cs.takeWhile (· ≠ '\n')

/-- Whether what follows an opening brace reads as an inline structure: on the same line a colon
and a closing brace, with something in front of each. -/
def isStructure (rest : List Char) : Bool :=
  match ((firstLine rest).drop 1).dropWhile (· ≠ ':') with
  | [] => false
  | _ :: tail => (tail.drop 1).contains '}'

/-- Whether what follows an opening parenthesis reads as one type in parentheses. -/
def isParenthesized (rest : List Char) : Bool := ((rest.takeWhile (· ≠ ',')).drop 1).contains ')'

/-- Whether what follows an opening parenthesis reads as an array of what is in parentheses. -/
def isArray (rest : List Char) : Bool :=
  Label.occursIn [')', '[', ']'] ((firstLine rest).drop 1)

/-- Whether what follows an opening square bracket reads as a tuple. -/
def isTuple (rest : List Char) : Bool := ((firstLine rest).drop 1).contains ']'

/-- Whether a text starts as an inline expression does. -/
def startsInline (cs : List Char) : Bool :=
  match cs with
  | '{' :: rest => isStructure rest
  | '(' :: rest => isParenthesized rest || isArray rest
  | '[' :: rest => isTuple rest
  | _ => false

/-- What follows an array of fixed length whose element and length are single words. -/
def afterFixedArray? (cs : List Char) : Option (List Char) := do
  let cs ← after? ['['] cs
  let cs ← afterSome? isWordChar cs
  let cs ← after? [';'] cs
  let cs ← afterSome? isWordChar (cs.dropWhile isBlank)
  after? [']'] cs

/-- Whether a text holds an array of fixed length. -/
def hasFixedArray : List Char → Bool
  | [] => false
  | c :: cs => (afterFixedArray? (c :: cs)).isSome || hasFixedArray cs

/-- Whether a text is taken over as an inline expression. -/
def isShortcut (cs : List Char) : Bool := startsInline cs && !hasFixedArray cs

end Shortcut

/-! ## Resolving -/

namespace Registry

/-- The shape of a type text all of whose plain types can be resolved. -/
def resolve (r : Registry) (text : String) : Except RenderError Shape :=
  match Shape.parse text.toList with
  | .error e => .error (.parse e)
  | .ok shape =>
    match r.unknownNames shape with
    | [] => .ok shape
    | name :: _ => .error (.unknownType name)

end Registry

/-! ## Formatting -/

/-- A type to be formatted. -/
inductive TypeInput where
  | text (s : String)
  | shape (s : Shape)

namespace Scope

/-- The expression of a type, for the given layout. -/
def expression (s : Scope) (layout : Layout) (input : TypeInput) (hint : Option String) :
    Trail Expr :=
  match input with
  | .shape shape => s.render shape hint
  | .text t =>
    if layout = .oneLine ∧ Shortcut.isShortcut t.toList then .done (.name t)
    else
      match s.registry.resolve t with
      | .ok shape => s.render shape hint
      | .error e => .fail e

/-- The text of a type in the given layout. -/
def format (s : Scope) (layout : Layout) (input : TypeInput) (hint : Option String) :
    Trail String := do
  let e ← s.expression layout input hint
  return e.print layout

end Scope

end ChainTypings
