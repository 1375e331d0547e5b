import ChainTypings.Text.Blank
import ChainTypings.Text.Digit

/-!
# Integers as text

An integer is written with digits of any script, a sign or none in front, single underscores
between digits if wanted, and blanks around it; the information separators are no such blanks.
-/

namespace ChainTypings.Number

open Text

/-- Whether the character may stand around an integer. -/
def isPadding (c : Char) : Bool := isBlank c && !(28 ≤ c.toNat && c.toNat ≤ 31)

/-- Drops the underscores of a number; none unless each stands between two digits. -/
def joinGroups? : List Char → Option (List Char)
  | [] => some []
  | [c] => if isDecimalDigit c then some [c] else none
  | c :: '_' :: rest =>
    if isDecimalDigit c && rest.head?.any isDecimalDigit then (joinGroups? rest).map (c :: ·)
    else none
  | c :: rest => if isDecimalDigit c then (joinGroups? rest).map (c :: ·) else none

/-- The sign of an integer, as whether it is negative, and what follows. -/
def afterSign (cs : List Char) : Bool × List Char :=
  match cs with
  | '-' :: rest => (true, rest)
  | '+' :: rest => (false, rest)
  | _ => (false, cs)

/-- The text without the padding at its ends. -/
def unpad (cs : List Char) : List Char :=
  ((cs.dropWhile isPadding).reverse.dropWhile isPadding).reverse

/-- The integer that a text spells. -/
def integer? (cs : List Char) : Option Int :=
  let (negative, body) := afterSign (unpad cs)
  if body.isEmpty then none
  else
    match (joinGroups? body).bind decimalNumber? with
    | some n => some (if negative then -(n : Int) else n)
    | none => none

end ChainTypings.Number
