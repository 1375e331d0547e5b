import ChainTypings.Text.Blank
import ChainTypings.Text.LetterCase
import ChainTypings.Text.Piece

/-!
# Names made of words

A name is split into words at blanks, underscores and hyphens, and its words are joined again
without them: in camel case with a small first letter, in Pascal case with a large one. A first
word all in upper case becomes lower case as a whole.
-/

namespace ChainTypings.Text

/-- Whether the character stands between words. -/
def isWordGap (c : Char) : Bool := isBlank c || c = '_' || c = '-'

/-- The words of a name. -/
def words (cs : List Char) : List (List Char) := stretches isWordGap cs

/-- The word with its first letter made large. -/
def capitalize : List Char → List Char
  | [] => []
  | c :: cs => upper c ++ cs

/-- The word with its first letter made small, or all of it if it is in upper case. -/
def decapitalize : List Char → List Char
  | [] => []
  | c :: cs => if isUpperWord (c :: cs) then lowerWord (c :: cs) else lower c ++ cs

/-- The name in Pascal case. -/
def pascalCase (cs : List Char) : List Char := (words cs).flatMap capitalize

/-- The name in camel case. -/
def camelCase (cs : List Char) : List Char :=
  match words cs with
  | [] => []
  | w :: ws => decapitalize w ++ ws.flatMap capitalize

/-- The name in Pascal case. -/
def pascal (s : String) : String := String.ofList (pascalCase s.toList)

/-- The name in camel case. -/
def camel (s : String) : String := String.ofList (camelCase s.toList)

end ChainTypings.Text
