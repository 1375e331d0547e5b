/-!
# Source texts

A generated document: a header, the import lines, if there are any, and the blocks with a blank
line between. It ends in exactly one line break.
-/

namespace ChainTypings.Source

/-- The header of every document. -/
def header : String := "// Auto-generated via `typegen`, do not edit\n/* eslint-disable */\n\n"

/-- The text without the line breaks at its end. -/
def chompAll (cs : List Char) : List Char := (cs.reverse.dropWhile (· = '\n')).reverse

/-- A document of import lines and blocks. -/
def assemble (imports blocks : List String) : String :=
  let head := if imports.isEmpty then "" else String.intercalate "\n" imports ++ "\n\n"
  let text := header ++ head ++ String.intercalate "\n\n" blocks
  String.ofList (chompAll text.toList ++ ['\n'])

end ChainTypings.Source
