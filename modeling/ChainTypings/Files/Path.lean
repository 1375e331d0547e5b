import ChainTypings.Text.Piece

/-!
# Paths

A path as it was given, cleaned of empty parts and of parts that are a single dot; two dots stay,
for where they lead depends on the files.
-/

namespace ChainTypings

/-- The slashes that a path starts with, none, one or two, and the names after them. -/
structure Path where
  slashes : Nat
  parts : List String
  deriving DecidableEq, Repr, Inhabited

namespace Path

/-- Whether the character stands between the parts of a path. -/
def isSlash (c : Char) : Bool := c = '/'

/-- The slashes that count at the start of a path: two are kept, more are as one. -/
def leadingSlashes (cs : List Char) : Nat :=
  let count := (cs.takeWhile isSlash).length
  if count ≤ 2 then count else 1

/-- The path that a text spells. -/
def ofString (s : String) : Path :=
  { slashes := leadingSlashes s.toList
    parts := ((Text.stretches isSlash s.toList).map String.ofList).filter (· ≠ ".") }

/-- The text of a path; the path without parts is a dot. -/
def text (p : Path) : String :=
  if p.slashes = 0 ∧ p.parts.isEmpty then "."
  else String.ofList (List.replicate p.slashes '/') ++ String.intercalate "/" p.parts

/-- The last part; empty if there is none. -/
def name (p : Path) : String := p.parts.getLast?.getD ""

/-- One path below another. A path that starts with a slash stands for itself. -/
def join (p q : Path) : Path :=
  if q.slashes = 0 then { p with parts := p.parts ++ q.parts } else q

end Path

end ChainTypings
