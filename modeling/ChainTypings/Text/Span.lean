/-!
# Tables of code points

A property of characters is data of a standard. It is kept as spans of consecutive code points,
or as runs in which every `step`-th code point counts, the usual layout of alternating upper-case
and lower-case letters. A shift table says how far the members of a run lie from their images.
-/

namespace ChainTypings.Text

/-- Spans of consecutive code points, ascending: the first and the last of each. -/
abbrev Spans := List (Nat × Nat)

/-- Whether a code point lies in one of the spans; the search ends at the first span past it. -/
def Spans.contains : Spans → Nat → Bool
  | [], _ => false
  | (first, last) :: rest, n =>
    if n < first then false else if n ≤ last then true else Spans.contains rest n

/-- Code points from `first` to `last`, one in every `step`. -/
structure Run where
  first : Nat
  last : Nat
  step : Nat

/-- Whether a code point belongs to the run. -/
def Run.contains (r : Run) (n : Nat) : Bool :=
  r.first ≤ n && n ≤ r.last && (n - r.first) % r.step == 0

/-- A run whose members all lie `offset` before their images. -/
structure Shift where
  first : Nat
  last : Nat
  step : Nat
  offset : Int

/-- Whether the shift moves the code point. -/
def Shift.contains (s : Shift) (n : Nat) : Bool :=
  s.first ≤ n && n ≤ s.last && (n - s.first) % s.step == 0

/-- The image of a character under the first shift that moves it; itself if none does. -/
def Shift.apply (shifts : List Shift) (c : Char) : Char :=
  match shifts.find? (·.contains c.toNat) with
  | some s => Char.ofNat (c.toNat + s.offset).toNat
  | none => c

end ChainTypings.Text
