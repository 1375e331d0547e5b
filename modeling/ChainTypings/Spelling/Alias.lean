import ChainTypings.Spelling.Rule

/-!
# Aliases

Spellings with a name of their own: the two words for text become `Text`, and the two spellings of
a sequence of bytes become `Bytes`. A pair of parentheses around one element is the element.
-/

namespace ChainTypings.Spelling

open Text

/-- Recognises one of the given texts and puts another in its place. -/
def replaceFirst? (pieces : List (List Char)) (new cs : List Char) :
    Option (List Char × List Char) :=
  (pieces.findSome? fun piece => after? piece cs).map fun rest => (new, rest)

/-- Recognises a whole word for text. -/
def textWord? (inWord : Bool) (cs : List Char) : Option (List Char × List Char) :=
  if inWord then none
  else
    let word := cs.takeWhile isWordChar
    if word = ['S', 't', 'r', 'i', 'n', 'g'] ∨ word = ['s', 't', 'r'] then
      some (['T', 'e', 'x', 't'], cs.dropWhile isWordChar)
    else none

/-- Recognises a sequence of bytes; a vector's name must be a whole word. -/
def byteSequence? (inWord : Bool) (cs : List Char) : Option (List Char × List Char) :=
  if inWord then none
  else
    replaceFirst? [['V', 'e', 'c', '<', 'u', '8', '>'], ['[', 'u', '8', ']']]
      ['B', 'y', 't', 'e', 's'] cs

/-- Whether the character may stand in a piece that is one element. -/
def isElementChar (c : Char) : Bool := !(c = ',' || c = '(' || c = ')')

/-- Recognises parentheses around one element, which holds neither commas nor parentheses. -/
def oneElement? (cs : List Char) : Option (List Char × List Char) :=
  match cs with
  | '(' :: inside =>
    let element := inside.takeWhile isElementChar
    match inside.dropWhile isElementChar with
    | ')' :: rest => if element.isEmpty then none else some (element, rest)
    | _ => none
  | _ => none

/-! ## The pieces are not empty -/

theorem textWord?_shorter {inWord : Bool} {cs new rest : List Char}
    (h : textWord? inWord cs = some (new, rest)) : rest.length < cs.length := by
  have hl := congrArg List.length (List.takeWhile_append_dropWhile (p := isWordChar) (l := cs))
  simp only [List.length_append] at hl
  unfold textWord? at h
  split at h
  · simp at h
  · dsimp only at h
    split at h
    · next hw =>
      obtain ⟨-, rfl⟩ := Prod.mk.inj (Option.some.inj h)
      rcases hw with hw | hw <;> simp only [hw, List.length_cons] at hl <;> omega
    · simp at h

theorem byteSequence?_shorter {inWord : Bool} {cs new rest : List Char}
    (h : byteSequence? inWord cs = some (new, rest)) : rest.length < cs.length := by
  unfold byteSequence? at h
  split at h
  · simp at h
  · obtain ⟨r, hr, he⟩ := Option.map_eq_some_iff.1 h
    obtain ⟨-, rfl⟩ := Prod.mk.inj he
    obtain ⟨piece, hp, hr⟩ := List.exists_of_findSome?_eq_some hr
    have := after?_eq hr
    subst this
    simp only [List.mem_cons, List.not_mem_nil, or_false] at hp
    rcases hp with rfl | rfl <;> simp <;> omega

theorem oneElement?_eq {cs new rest : List Char} (h : oneElement? cs = some (new, rest)) :
    cs = '(' :: new ++ ')' :: rest ∧ new ≠ [] := by
  unfold oneElement? at h
  split at h
  · next inside =>
    dsimp only at h
    split at h
    · next tail ht =>
      split at h
      · simp at h
      · next hne =>
        obtain ⟨rfl, rfl⟩ := Prod.mk.inj (Option.some.inj h)
        refine ⟨?_, by simpa using hne⟩
        rw [List.cons_append, ← ht, List.takeWhile_append_dropWhile]
    · simp at h
  · simp at h

theorem oneElement?_shorter {cs new rest : List Char} (h : oneElement? cs = some (new, rest)) :
    rest.length < cs.length := by
  rw [(oneElement?_eq h).1]
  simp
  omega

/-! ## The rules -/

/-- Names texts. -/
def textAlias : Rule := ⟨textWord?, textWord?_shorter⟩

/-- Names sequences of bytes. -/
def bytesAlias : Rule := ⟨byteSequence?, byteSequence?_shorter⟩

/-- Drops parentheses around one element. -/
def oneElement : Rule := ⟨fun _ => oneElement?, oneElement?_shorter⟩

/-- Drops parentheses around one element until none are left; every round that changes the text
shortens it. -/
def flatten (cs : List Char) : List Char :=
  let once := oneElement.apply cs
  if once.length < cs.length then flatten once else once
termination_by cs.length

end ChainTypings.Spelling
