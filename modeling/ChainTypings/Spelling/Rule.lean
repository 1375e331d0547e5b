import ChainTypings.Text.Piece
import ChainTypings.Text.Word

/-!
# Replacement rules on text

A rule recognises a piece at the start of a text and gives what to put in its place. Applied to a
whole text it goes from left to right: a recognised piece is replaced and passed over, any other
character is kept. A rule may ask whether a word goes on in front of the piece; it sees the text
as it was, not as replaced. No piece ends inside a word, so after one no word goes on.

`Rule.apply_cases` is the shape of every argument about a rule: it holds of the empty text, of a
replaced piece and of a kept character.
-/

namespace ChainTypings.Spelling

/-- A rule for a piece of text: its replacement and the text that follows it. -/
structure Rule where
  /-- Recognises a piece at the start of a text, told whether a word goes on in front of it. -/
  find? : Bool → List Char → Option (List Char × List Char)
  /-- A piece is not empty. -/
  shorter : ∀ {inWord : Bool} {cs new rest : List Char},
    find? inWord cs = some (new, rest) → rest.length < cs.length

namespace Rule

/-- Applies the rule from left to right. -/
def applyFrom (r : Rule) (inWord : Bool) (cs : List Char) : List Char :=
  match _found : r.find? inWord cs with
  | some (new, rest) => new ++ r.applyFrom false rest
  | none =>
    match cs with
    | [] => []
    | c :: cs => c :: r.applyFrom (Text.isWordChar c) cs
termination_by cs.length
decreasing_by
  · exact r.shorter _found
  · exact Nat.lt_succ_self _

/-- Applies the rule to a whole text. -/
def apply (r : Rule) (cs : List Char) : List Char := r.applyFrom false cs

theorem find?_nil (r : Rule) (inWord : Bool) : r.find? inWord [] = none := by
  cases h : r.find? inWord [] with
  | none => rfl
  | some p => exact absurd (r.shorter h) (by simp)

theorem applyFrom_nil (r : Rule) (inWord : Bool) : r.applyFrom inWord [] = [] := by
  rw [applyFrom]
  split
  · next h => simp [find?_nil] at h
  · rfl

theorem applyFrom_of_some {r : Rule} {inWord : Bool} {cs new rest : List Char}
    (h : r.find? inWord cs = some (new, rest)) :
    r.applyFrom inWord cs = new ++ r.applyFrom false rest := by
  rw [applyFrom]
  split
  · next h' =>
    obtain ⟨rfl, rfl⟩ := Prod.mk.inj (Option.some.inj (h'.symm.trans h))
    rfl
  · next h' => simp [h'] at h

theorem applyFrom_of_none {r : Rule} {inWord : Bool} {c : Char} {cs : List Char}
    (h : r.find? inWord (c :: cs) = none) :
    r.applyFrom inWord (c :: cs) = c :: r.applyFrom (Text.isWordChar c) cs := by
  rw [applyFrom]
  split
  · next h' => simp [h'] at h
  · rfl

/-- Induction along a run of a rule. -/
theorem apply_cases {r : Rule} {P : Bool → List Char → Prop}
    (nil : ∀ inWord, P inWord [])
    (replaced : ∀ inWord cs new rest, r.find? inWord cs = some (new, rest) → P false rest →
      P inWord cs)
    (kept : ∀ inWord c cs, r.find? inWord (c :: cs) = none → P (Text.isWordChar c) cs →
      P inWord (c :: cs)) (inWord : Bool) (cs : List Char) : P inWord cs := by
  match h : r.find? inWord cs with
  | some (new, rest) =>
    exact replaced inWord cs new rest h (apply_cases nil replaced kept false rest)
  | none =>
    match cs with
    | [] => exact nil inWord
    | c :: cs => exact kept inWord c cs h (apply_cases nil replaced kept _ cs)
termination_by cs.length
decreasing_by
  · exact r.shorter h
  · simp

end Rule

end ChainTypings.Spelling
