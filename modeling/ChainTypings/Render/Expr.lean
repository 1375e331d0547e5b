/-!
# Type expressions

The expressions of the target language that types are rendered as, and their text in two layouts.
Both layouts write the same tree; they differ only in how the fields of an inline structure are
set out: on one line, or each on a line of its own.
-/

namespace ChainTypings

/-- A type expression. -/
inductive Expr where
  /-- A name, or any type text taken over as it is. -/
  | name (text : String)
  /-- A type that keeps a name for readers. -/
  | labelled (label type : String)
  /-- A wrapper around one type. -/
  | wrap (wrapper : String) (argument : Expr)
  /-- A wrapper around two types. -/
  | wrapTwo (wrapper : String) (first second : Expr)
  | tuple (elements : List Expr)
  | struct (fields : List (String × Expr))
  deriving Inhabited

/-- How the fields of an inline structure are set out. -/
inductive Layout where
  | oneLine
  | multiLine
  deriving DecidableEq, Repr

/-- A wrapper with its arguments. -/
def Expr.application (wrapper : String) (arguments : List String) : String :=
  wrapper ++ "<" ++ String.intercalate ", " arguments ++ ">"

/-- A wrapper with its arguments, of which there must be one at least. -/
def Expr.application? (wrapper : String) (arguments : List String) : Except String String :=
  if arguments.isEmpty then .error (wrapper ++ " needs at least one type argument")
  else .ok (Expr.application wrapper arguments)

namespace Layout

/-- One field of an inline structure. -/
def field : Layout → String → String → String
  | oneLine, key, type => key ++ ": " ++ type ++ ";"
  | multiLine, key, type => "    readonly " ++ key ++ ": " ++ type ++ ";"

/-- An inline structure around its fields. -/
def struct : Layout → List String → String
  | oneLine, fields => "\x7b " ++ String.intercalate " " fields ++ " \x7d & Struct"
  | multiLine, fields => "\x7b\n" ++ String.intercalate "\n" fields ++ "\n  \x7d & Struct"

end Layout

namespace Expr

mutual

/-- The text of an expression. -/
def print (layout : Layout) : Expr → String
  | name text => text
  | labelled label type => "As<'" ++ label ++ "', " ++ type ++ ">"
  | wrap wrapper argument => application wrapper [print layout argument]
  | wrapTwo wrapper first second =>
    application wrapper [print layout first, print layout second]
  | tuple elements =>
    application "ITuple" ["[" ++ String.intercalate ", " (printEach layout elements) ++ "]"]
  | struct fields => layout.struct (printFields layout fields)

/-- The texts of several expressions. -/
def printEach (layout : Layout) : List Expr → List String
  | [] => []
  | e :: es => print layout e :: printEach layout es

/-- The texts of the fields of a structure. -/
def printFields (layout : Layout) : List (String × Expr) → List String
  | [] => []
  | (key, e) :: fields => layout.field key (print layout e) :: printFields layout fields

end

end Expr

end ChainTypings
