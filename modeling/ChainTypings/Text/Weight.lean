/-!
# The weight of a text

A measure that falls with every step from a type text to a text beneath it. Opening brackets weigh
one, since a step leaves one behind. Characters that JSON may spell by escapes weigh as much as
the letter `u` of those escapes, one or two, so that reading a string or writing it again as JSON
adds nothing; the letter `u` itself therefore weighs one.

`weight_le_of_sublist` is the rule most used: leaving characters out adds no weight.
-/

namespace ChainTypings.Text

/-- The control characters with a short escape in JSON. -/
def isShortEscape (c : Char) : Bool :=
  c = '\n' || c = '\r' || c = '\t' || c = '\x0c' || c = '\x08'

/-- The weight of a character. -/
def charWeight (c : Char) : Nat :=
  if c = '<' || c = '(' || c = '[' || c = '{' || c = 'u' then 1
  else if 32 ≤ c.toNat && c.toNat < 127 || isShortEscape c then 0
  else if c.toNat < 0x10000 then 1
  else 2

/-- The weight of a text. -/
def weight : List Char → Nat
  | [] => 0
  | c :: cs => charWeight c + weight cs

@[simp] theorem weight_nil : weight [] = 0 := rfl

@[simp] theorem weight_cons (c : Char) (cs : List Char) :
    weight (c :: cs) = charWeight c + weight cs := rfl

@[simp] theorem weight_append (cs ds : List Char) : weight (cs ++ ds) = weight cs + weight ds := by
  induction cs with
  | nil => simp
  | cons c cs ih => simp only [List.cons_append, weight_cons, ih]; omega

theorem weight_le_of_sublist {cs ds : List Char} (h : cs.Sublist ds) : weight cs ≤ weight ds := by
  induction h with
  | slnil => exact Nat.le_refl _
  | cons c _ ih => rw [weight_cons]; omega
  | cons_cons c _ ih => simp only [weight_cons]; omega

theorem charWeight_le_two (c : Char) : charWeight c ≤ 2 := by
  unfold charWeight
  repeat' split
  all_goals omega

end ChainTypings.Text
