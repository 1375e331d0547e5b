import ChainTypings.Json.Basic
import ChainTypings.Number.Shortest
import ChainTypings.Text.Quoted

/-!
# Writing JSON

The text of a value on one line, in ASCII: a blank after every comma and colon, everything
outside the printable ASCII range escaped, a character beyond sixteen bits as two surrogates.
-/

namespace ChainTypings.Json

/-- Numbers from a ten-thousandth up to ten to the sixteenth have no exponent; others have one of
at least two digits. -/
def numberLayout : Binary64.Layout :=
  { positionalFrom := -4, positionalBelow := 16, exponentDigits := 2 }

/-- The digits of an integer, with a sign if it is negative. -/
def intChars (n : Int) : List Char :=
  if n < 0 then '-' :: Nat.toDigits 10 n.natAbs else Nat.toDigits 10 n.natAbs

/-- The escape of a code unit of sixteen bits. -/
def unitEscape (u : Nat) : List Char := '\\' :: 'u' :: Text.hexDigits 4 u

/-- One character of a string. -/
def dumpChar (c : Char) : List Char :=
  if c = '"' then ['\\', '"']
  else if c = '\\' then ['\\', '\\']
  else if c = '\n' then ['\\', 'n']
  else if c = '\r' then ['\\', 'r']
  else if c = '\t' then ['\\', 't']
  else if c = '\x0c' then ['\\', 'f']
  else if c = '\x08' then ['\\', 'b']
  else if 32 ≤ c.toNat ∧ c.toNat < 127 then [c]
  else if c.toNat < 0x10000 then unitEscape c.toNat
  else
    let n := c.toNat - 0x10000
    unitEscape (0xd800 + n / 1024) ++ unitEscape (0xdc00 + n % 1024)

/-- The text of a string. -/
def dumpString (s : String) : List Char := '"' :: s.toList.flatMap dumpChar ++ ['"']

/-- The text of a floating-point number. -/
def dumpFloat (x : Binary64) : List Char :=
  x.text numberLayout "NaN".toList "Infinity".toList

mutual

/-- The text of a value. -/
def dumpChars : Json → List Char
  | .null => "null".toList
  | .bool b => if b then "true".toList else "false".toList
  | .int n => intChars n
  | .float x => dumpFloat x
  | .str s => dumpString s
  | .arr items => '[' :: dumpItems items ++ [']']
  | .obj fields => '{' :: dumpFields fields ++ ['}']

/-- The items of a list, with commas between. -/
def dumpItems : List Json → List Char
  | [] => []
  | [v] => dumpChars v
  | v :: rest => dumpChars v ++ ',' :: ' ' :: dumpItems rest

/-- The fields of an object, with commas between. -/
def dumpFields : List (String × Json) → List Char
  | [] => []
  | [(k, v)] => dumpString k ++ ':' :: ' ' :: dumpChars v
  | (k, v) :: rest => dumpString k ++ ':' :: ' ' :: dumpChars v ++ ',' :: ' ' :: dumpFields rest

end

/-- The text of a value. -/
def dump (v : Json) : String := String.ofList (dumpChars v)

end ChainTypings.Json
