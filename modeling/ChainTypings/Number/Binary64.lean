/-!
# Binary floating-point numbers

A number of 64 bits is a sign and a mantissa times a power of two, or an infinity, or no number.
A decimal is read as the nearest such number, and of two equally near ones as that of even
mantissa. All arithmetic is on natural numbers, so that a reader can be reasoned about.
-/

namespace ChainTypings

/-- A floating-point number of 64 bits. A finite one is `± mantissa · 2 ^ exponent` with the
mantissa below `2 ^ 53` and, unless the exponent is the least one, at least `2 ^ 52`. -/
inductive Binary64 where
  | nan
  | infinite (negative : Bool)
  | finite (negative : Bool) (mantissa : Nat) (exponent : Int)
  deriving DecidableEq, Repr

namespace Binary64

/-- The exponent of the smallest numbers. -/
def leastExponent : Int := -1074

/-- The exponent of the largest numbers. -/
def greatestExponent : Int := 971

/-- The limit of mantissas, `2 ^ 53`. -/
def mantissaLimit : Nat := 1 <<< 53

/-- The least mantissa of a number whose exponent is not the least one, `2 ^ 52`. -/
def fullMantissa : Nat := 1 <<< 52

/-- Zero, with its sign. -/
def zero (negative : Bool) : Binary64 := .finite negative 0 leastExponent

/-- The quotient rounded to the nearest integer, a half to the even one. -/
def roundQuotient (num den : Nat) : Nat :=
  let q := num / den
  let twice := 2 * (num % den)
  if twice < den then q
  else if den < twice then q + 1
  else q + q % 2

/-- The fraction `num · 2 ^ (-e) / den`, as a numerator and a denominator. -/
def scaled (num den : Nat) (e : Int) : Nat × Nat :=
  if e < 0 then (num <<< (-e).toNat, den) else (num, den <<< e.toNat)

/-- The exponent at which `num / den` has a mantissa of 53 binary digits. -/
def exponentOf (num den : Nat) : Int :=
  let e : Int := (num.log2 : Int) - den.log2 - 53
  let (n, d) := scaled num den e
  if n / d < mantissaLimit then e else e + 1

/-- The number nearest to the positive fraction `num / den`. -/
def ofFraction (negative : Bool) (num den : Nat) : Binary64 :=
  let e := max leastExponent (exponentOf num den)
  let (n, d) := scaled num den e
  let m := roundQuotient n d
  let (m, e) := if m = mantissaLimit then (fullMantissa, e + 1) else (m, e)
  if greatestExponent < e then .infinite negative else .finite negative m e

/-- The number nearest to `± digits · 10 ^ exponent`. A value past all finite numbers or below
half the smallest is recognised by its count of digits, before any power is taken. -/
def ofDecimal (negative : Bool) (digits : Nat) (exponent : Int) : Binary64 :=
  if digits = 0 then zero negative
  else
    let magnitude := (Nat.toDigits 10 digits).length + exponent
    if 310 < magnitude then .infinite negative
    else if magnitude < -330 then zero negative
    else if exponent < 0 then ofFraction negative digits (Nat.pow 10 (-exponent).toNat)
    else ofFraction negative (digits * Nat.pow 10 exponent.toNat) 1

/-- Whether the number is zero of either sign. -/
def isZero : Binary64 → Bool
  | .finite _ m _ => m = 0
  | _ => false

/-- The integer part: what remains when the digits after the point are dropped. -/
def truncate (negative : Bool) (mantissa : Nat) (exponent : Int) : Int :=
  let size : Nat :=
    if exponent < 0 then mantissa >>> (-exponent).toNat else mantissa <<< exponent.toNat
  if negative then -(size : Int) else size

end Binary64

end ChainTypings
