import ChainTypings.Json.Basic

/-!
# Values as keys

Values index entries and name flags. Numbers of equal value are one key, whatever their kind, and
the truth values count as one and zero; lists and objects are no keys. Numbers are ordered by
value and texts by code point; between a text and a number there is no order.
-/

namespace ChainTypings.Json

/-- A value as a key. A number is `mantissa · 2 ^ exponent`. -/
inductive Key where
  | absent
  | number (mantissa exponent : Int)
  | infinite (negative : Bool)
  | nan
  | text (s : String)
  deriving DecidableEq

namespace Key

/-- The mantissa when the exponent is lowered to `base`. -/
def lowered (mantissa exponent base : Int) : Int :=
  mantissa * ((1 <<< (exponent - base).toNat : Nat) : Int)

/-- Whether two keys are one. -/
def same : Key → Key → Bool
  | number m e, number m' e' => lowered m e (min e e') = lowered m' e' (min e e')
  | k, k' => k = k'

/-- Whether the first key comes before the second; none where they have no order. -/
def before? : Key → Key → Option Bool
  | number m e, number m' e' => some (lowered m e (min e e') < lowered m' e' (min e e'))
  | text s, text s' => some (s < s')
  | number _ _, infinite negative => some !negative
  | infinite negative, number _ _ => some negative
  | infinite negative, infinite negative' => some (negative && !negative')
  | nan, nan => some false
  | nan, number _ _ => some false
  | nan, infinite _ => some false
  | number _ _, nan => some false
  | infinite _, nan => some false
  | _, _ => none

theorem same_int (m m' : Int) : same (.number m 0) (.number m' 0) = decide (m = m') := by
  simp [same, lowered]

theorem before?_int (m m' : Int) :
    before? (.number m 0) (.number m' 0) = some (decide (m < m')) := by
  simp [before?, lowered]

end Key

/-- The key of a value; none for a list or an object. -/
def key? : Json → Option Key
  | .null => some .absent
  | .bool b => some (.number (if b then 1 else 0) 0)
  | .int n => some (.number n 0)
  | .float .nan => some .nan
  | .float (.infinite negative) => some (.infinite negative)
  | .float (.finite negative m e) => some (.number (if negative then -m else m) e)
  | .str s => some (.text s)
  | .arr _ => none
  | .obj _ => none

end ChainTypings.Json
