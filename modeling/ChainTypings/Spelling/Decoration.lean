import ChainTypings.Spelling.Rule
import ChainTypings.Text.Blank

/-!
# Decorations of a type

What a type text may carry beside the type itself: a projection onto an associated type, the path
in front of a name, and references with their lifetimes. Each is a rule that leaves nothing in
its place.
-/

namespace ChainTypings.Spelling

open Text

/-- The characters of a path: those of its words and the colons between. -/
def isPathChar (c : Char) : Bool := isWordChar c || c = ':'

/-- Passes over one pair of angle brackets that holds no other angle bracket, if there is one. -/
def afterArguments (cs : List Char) : List Char :=
  match cs with
  | '<' :: inside =>
    match inside.dropWhile fun c => !(c = '<' || c = '>') with
    | '>' :: rest => rest
    | _ => cs
  | _ => cs

/-- What follows a projection `<Path as Path>::`. Blanks may stand inside its brackets, and the
second path may have plain arguments. -/
def afterProjection? (cs : List Char) : Option (List Char) := do
  let cs ← after? ['<'] cs
  let cs ← afterSome? isPathChar (cs.dropWhile isBlank)
  let cs ← afterSome? isBlank cs
  let cs ← after? ['a', 's'] cs
  let cs ← afterSome? isBlank cs
  let cs ← afterSome? isPathChar cs
  after? ['>', ':', ':'] ((afterArguments cs).dropWhile isBlank)

/-- Whether a path segment may start with the character. -/
def isSegmentStart (c : Char) : Bool := c.isAlpha || c = '_'

/-- What follows a path segment: a word that starts with an ASCII letter or an underscore, and two
colons. A segment does not start inside a word. -/
def afterSegment? (inWord : Bool) (cs : List Char) : Option (List Char) :=
  match cs with
  | c :: rest =>
    if !inWord && isSegmentStart c then after? [':', ':'] (rest.dropWhile isWordChar) else none
  | [] => none

/-- Passes over a lifetime: an apostrophe and a word right after it. -/
def afterLifetime (cs : List Char) : List Char :=
  match cs with
  | '\'' :: word => (afterSome? isWordChar word).getD cs
  | _ => cs

/-- What follows a reference: its mark, a lifetime if there is one, and blanks. -/
def afterReference? (cs : List Char) : Option (List Char) :=
  (after? ['&'] cs).map fun cs => (afterLifetime cs).dropWhile isBlank

/-! ## The pieces are not empty -/

theorem length_after? {piece cs rest : List Char} (h : after? piece cs = some rest) :
    rest.length + piece.length = cs.length := by
  rw [after?_eq h, List.length_append, Nat.add_comm]

theorem length_afterSome? {p : Char → Bool} {cs rest : List Char}
    (h : afterSome? p cs = some rest) : rest.length < cs.length := by
  obtain ⟨c, run, rfl, -⟩ := afterSome?_eq h
  simp only [List.cons_append, List.length_cons, List.length_append]
  omega

theorem length_dropWhile_le (p : Char → Bool) (cs : List Char) :
    (cs.dropWhile p).length ≤ cs.length :=
  (List.dropWhile_sublist p).length_le

theorem length_afterArguments_le (cs : List Char) : (afterArguments cs).length ≤ cs.length := by
  unfold afterArguments
  split
  · next inside =>
    split
    · next rest h =>
      have := length_dropWhile_le (fun c => !(c = '<' || c = '>')) inside
      simp only [h, List.length_cons] at this ⊢
      omega
    · exact Nat.le_refl _
  · exact Nat.le_refl _

theorem length_afterProjection? {cs rest : List Char} (h : afterProjection? cs = some rest) :
    rest.length < cs.length := by
  simp only [afterProjection?, Option.bind_eq_bind, Option.bind_eq_some_iff] at h
  obtain ⟨c₁, h₁, c₂, h₂, c₃, h₃, c₄, h₄, c₅, h₅, c₆, h₆, h₇⟩ := h
  have l₁ := length_after? h₁
  have l₂ := length_afterSome? h₂
  have l₃ := length_afterSome? h₃
  have l₄ := length_after? h₄
  have l₅ := length_afterSome? h₅
  have l₆ := length_afterSome? h₆
  have l₇ := length_after? h₇
  have m₂ := length_dropWhile_le isBlank c₁
  have m₇ := length_dropWhile_le isBlank (afterArguments c₆)
  have m₆ := length_afterArguments_le c₆
  simp only [List.length_cons, List.length_nil] at l₁ l₄ l₇
  omega

theorem length_afterSegment? {inWord : Bool} {cs rest : List Char}
    (h : afterSegment? inWord cs = some rest) : rest.length < cs.length := by
  unfold afterSegment? at h
  split at h
  · next c cs =>
    split at h
    · have l := length_after? h
      have m := length_dropWhile_le isWordChar cs
      simp only [List.length_cons, List.length_nil] at l ⊢
      omega
    · simp at h
  · simp at h

theorem length_afterLifetime_le (cs : List Char) : (afterLifetime cs).length ≤ cs.length := by
  unfold afterLifetime
  split
  · next word =>
    cases h : afterSome? isWordChar word with
    | none => simp
    | some rest =>
      have := length_afterSome? h
      simp
      omega
  · exact Nat.le_refl _

theorem length_afterReference? {cs rest : List Char} (h : afterReference? cs = some rest) :
    rest.length < cs.length := by
  obtain ⟨c₁, h₁, rfl⟩ := Option.map_eq_some_iff.1 h
  have l := length_after? h₁
  have m := length_dropWhile_le isBlank (afterLifetime c₁)
  have m' := length_afterLifetime_le c₁
  simp only [List.length_cons, List.length_nil] at l
  omega

/-! ## The rules -/

/-- A rule that removes a piece. -/
def removal (find? : Bool → List Char → Option (List Char))
    (shorter : ∀ {inWord : Bool} {cs rest : List Char},
      find? inWord cs = some rest → rest.length < cs.length) : Rule where
  find? inWord cs := (find? inWord cs).map fun rest => ([], rest)
  shorter h := by
    obtain ⟨_, h', he⟩ := Option.map_eq_some_iff.1 h
    obtain ⟨-, rfl⟩ := Prod.mk.inj he
    exact shorter h'

/-- Removes projections onto associated types. -/
def projection : Rule := removal (fun _ => afterProjection?) length_afterProjection?

/-- Removes the segments of paths. -/
def path : Rule := removal afterSegment? length_afterSegment?

/-- Removes references with their lifetimes. -/
def reference : Rule := removal (fun _ => afterReference?) length_afterReference?

end ChainTypings.Spelling
