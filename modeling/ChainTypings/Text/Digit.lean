import ChainTypings.Text.Span

/-!
# Digits

A decimal digit has a value and takes part in a number; a digit sign (a superscript, a circled
digit) only looks like one. Text of digit signs passes for digits and yet is no number.
-/

namespace ChainTypings.Text

/-- The zeros of the scripts; each is followed by its digits one to nine (Unicode 14). -/
def zeroDigits : List Nat :=
  [48, 1632, 1776, 1984, 2406, 2534, 2662, 2790, 2918, 3046, 3174, 3302, 3430, 3558, 3664,
   3792, 3872, 4160, 4240, 6112, 6160, 6470, 6608, 6784, 6800, 6992, 7088, 7232, 7248, 42528,
   43216, 43264, 43472, 43504, 43600, 44016, 65296, 66720, 68912, 69734, 69872, 69942, 70096,
   70384, 70736, 70864, 71248, 71360, 71472, 71904, 72016, 72784, 73040, 73120, 92768, 92864,
   93008, 120782, 120792, 120802, 120812, 120822, 123200, 123632, 125264, 130032]

/-- Digits outside every run of ten: superscripts, subscripts, circled and the like (Unicode 14). -/
def digitSigns : Spans :=
  [(178, 179), (185, 185), (4969, 4977), (6618, 6618), (8304, 8304), (8308, 8313),
   (8320, 8329), (9312, 9320), (9332, 9340), (9352, 9360), (9450, 9450), (9461, 9469),
   (9471, 9471), (10102, 10110), (10112, 10120), (10122, 10130), (68160, 68163),
   (69216, 69224), (69714, 69722), (127232, 127242)]

/-- The value of a decimal digit of any script. -/
def decimalValue? (c : Char) : Option Nat :=
  (zeroDigits.find? fun z => z ≤ c.toNat && c.toNat < z + 10).map fun z => c.toNat - z

/-- Whether the character is a decimal digit of any script. -/
def isDecimalDigit (c : Char) : Bool := (decimalValue? c).isSome

/-- Whether the character is a digit or a digit sign. -/
def isDigit (c : Char) : Bool := isDecimalDigit c || digitSigns.contains c.toNat

/-- Whether the text is one or more digits or digit signs. -/
def allDigits (cs : List Char) : Bool := !cs.isEmpty && cs.all isDigit

/-- The number that decimal digits spell, most significant first. There may be any count of them:
a runtime's limit on the digits that it converts, such as 4300, is left out. -/
def decimalNumber? (cs : List Char) : Option Nat :=
  cs.foldlM (fun n c => (decimalValue? c).map (10 * n + ·)) 0

end ChainTypings.Text
