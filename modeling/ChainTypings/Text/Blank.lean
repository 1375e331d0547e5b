import ChainTypings.Text.Span

/-!
# Blank characters

Spaces and line breaks of every script, with the four information separators of ASCII, and texts
without the blanks at their ends.
-/

namespace ChainTypings.Text

/-- The spans of blank characters (Unicode 14). -/
def blankSpans : Spans :=
  [(9, 13), (28, 32), (133, 133), (160, 160), (5760, 5760), (8192, 8202), (8232, 8233),
   (8239, 8239), (8287, 8287), (12288, 12288)]

/-- Whether the character is a space, a line break or another separator. -/
def isBlank (c : Char) : Bool := blankSpans.contains c.toNat

/-- The text without the blanks at its start. -/
def stripStart (cs : List Char) : List Char := cs.dropWhile isBlank

/-- The text without the blanks at its end. -/
def stripEnd (cs : List Char) : List Char := (cs.reverse.dropWhile isBlank).reverse

/-- The text without the blanks at both ends. -/
def strip (cs : List Char) : List Char := stripEnd (stripStart cs)

end ChainTypings.Text
