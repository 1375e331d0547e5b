import ChainTypings.Number.Binary64

/-!
# The shortest decimal of a number

The fewest decimal digits that read back as a given binary number, and of those the nearest. For
one digit, two digits, and so on, the two neighbours of the number on the decimal grid of that
fineness are tried; the first grid with a neighbour inside the number's rounding interval wins.
-/

namespace ChainTypings.Binary64

/-- The reals that round to `mantissa · 2 ^ exponent`, in quarters of a unit of the last place:
the two ends, the middle and whether the ends belong. -/
structure Interval where
  low : Nat
  middle : Nat
  high : Nat
  closed : Bool

/-- The rounding interval. Below a power of two the next smaller number is only half as far. -/
def interval (mantissa : Nat) (exponent : Int) : Interval :=
  let below := if mantissa = fullMantissa && leastExponent < exponent then 1 else 2
  { low := 4 * mantissa - below
    middle := 4 * mantissa
    high := 4 * mantissa + 2
    closed := mantissa % 2 = 0 }

/-- Whether the fraction `n / d` lies in the interval. -/
def Interval.contains (i : Interval) (n d : Nat) : Bool :=
  if i.closed then i.low * d ≤ n && n ≤ i.high * d else i.low * d < n && n < i.high * d

/-- The fraction `10 ^ k · 2 ^ (2 - exponent)`: one step of a decimal grid, in quarter units. -/
def gridStep (k exponent : Int) : Nat × Nat :=
  let tens : Nat × Nat := if k < 0 then (1, Nat.pow 10 (-k).toNat) else (Nat.pow 10 k.toNat, 1)
  let e := 2 - exponent
  if e < 0 then (tens.1, tens.2 <<< (-e).toNat) else (tens.1 <<< e.toNat, tens.2)

/-- The neighbour of the middle on the grid of step `10 ^ k`, if one lies in the interval; of two
the nearer, of two equally near ones the even. -/
def neighbour? (i : Interval) (k exponent : Int) : Option Nat :=
  let (n, d) := gridStep k exponent
  let s := i.middle * d / n
  let lower := i.contains (s * n) d
  let upper := i.contains ((s + 1) * n) d
  match lower, upper with
  | false, false => none
  | true, false => some s
  | false, true => some (s + 1)
  | true, true =>
    let down := i.middle * d - s * n
    let up := (s + 1) * n - i.middle * d
    if down < up then some s else if up < down then some (s + 1) else some (s + s % 2)

/-- How many digits stand before the decimal point of `num / den`; zero or less below one tenth. -/
def pointPosition (num den : Nat) : Int :=
  let guess : Int := (Nat.toDigits 10 num).length - (Nat.toDigits 10 den).length
  let reached : Bool :=
    if guess < 0 then den ≤ num * Nat.pow 10 (-guess).toNat
    else den * Nat.pow 10 guess.toNat ≤ num
  if reached then guess + 1 else guess

/-- Drops zeros at the end of a number's digits and counts them in the exponent. -/
def dropZeros : Nat → Nat → Int → Nat × Int
  | 0, n, k => (n, k)
  | fuel + 1, n, k => if n % 10 = 0 then dropZeros fuel (n / 10) (k + 1) else (n, k)

/-- The fewest digits, with the power of ten that they count, of a positive finite number.
Seventeen digits always suffice. -/
def shortest (mantissa : Nat) (exponent : Int) : Nat × Int :=
  let i := interval mantissa exponent
  let (num, den) := scaled mantissa 1 (-exponent)
  let point := pointPosition num den
  let found := (List.range 17).findSome? fun count =>
    let k := point - (count + 1 : Nat)
    (neighbour? i k exponent).map fun n => dropZeros 20 n k
  found.getD (mantissa, 0)

/-- How a number's shortest digits are laid out. -/
structure Layout where
  /-- The least power of ten of a first digit that is written without an exponent. -/
  positionalFrom : Int
  /-- The first power of ten from which an exponent is written. -/
  positionalBelow : Int
  /-- The least count of digits of an exponent. -/
  exponentDigits : Nat

/-- Lays out digits with their power of ten: with a point and at least one digit after it, or as
one digit, more digits after a point if there are any, and a signed exponent. -/
def Layout.write (l : Layout) (digits : Nat) (k : Int) : List Char :=
  let ds := Nat.toDigits 10 digits
  let lead := ds.length - 1 + k
  if l.positionalFrom ≤ lead && lead < l.positionalBelow then
    if 0 ≤ k then ds ++ List.replicate k.toNat '0' ++ ['.', '0']
    else if 0 ≤ lead then ds.take (lead.toNat + 1) ++ '.' :: ds.drop (lead.toNat + 1)
    else '0' :: '.' :: List.replicate (-lead - 1).toNat '0' ++ ds
  else
    let tail := ds.drop 1
    let power := Nat.toDigits 10 lead.natAbs
    ds.take 1 ++ (if tail.isEmpty then [] else '.' :: tail) ++
      'e' :: (if lead < 0 then '-' else '+') ::
        List.replicate (l.exponentDigits - power.length) '0' ++ power

/-- The text of a number: its shortest digits in the given layout, and names for what has none. -/
def text (l : Layout) (nan infinity : List Char) : Binary64 → List Char
  | .nan => nan
  | .infinite negative => if negative then '-' :: infinity else infinity
  | .finite negative mantissa exponent =>
    let size :=
      if mantissa = 0 then ['0', '.', '0']
      else
        let (digits, k) := shortest mantissa exponent
        l.write digits k
    if negative then '-' :: size else size

end ChainTypings.Binary64
