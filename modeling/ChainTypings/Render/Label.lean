import ChainTypings.Import.Mention
import ChainTypings.Spelling.Normal

/-!
# Labels

A type may keep a name for readers: `As<'Name', Type>` is `Type` with a label. A label is the name
in its normal spelling, stripped of everything but word characters and type punctuation; names
that describe themselves, and names that the type shows anyway, give none (`of_labelFor?`).
-/

namespace ChainTypings

open Spelling

namespace Label

/-- Names that describe themselves. -/
def selfDescribing : List String := ["N", "T", "H256", "MultiAddress", "Vec<u8>"]

/-- How names start that are tuples, arrays or vectors. -/
def notationStarts : List (List Char) := [['('], ['['], ['V', 'e', 'c', '<']]

/-- Whether a name is written as a tuple, an array or a vector. -/
def isNotation (cs : List Char) : Bool := notationStarts.any fun start => start.isPrefixOf cs

/-- Whether a label may hold the character. -/
def isLabelChar (c : Char) : Bool := Text.isWordChar c || "<>[](),;".toList.contains c

/-- The label of a name for readers. -/
def labelOf (typeName : String) : List Char := (normalize typeName.toList).filter isLabelChar

/-- Whether a text occurs in another. -/
def occursIn (piece : List Char) : List Char → Bool
  | [] => piece.isEmpty
  | c :: cs => piece.isPrefixOf (c :: cs) || occursIn piece cs

/-- The label that a type is given for a name, if any. -/
def labelFor? (type typeName : String) : Option String :=
  if typeName.isEmpty || selfDescribing.contains type || selfDescribing.contains typeName ||
      isNotation typeName.toList then none
  else
    let label := labelOf typeName
    if label.isEmpty || occursIn label type.toList ||
        selfDescribing.contains (String.ofList label) then none
    else some (String.ofList label)

theorem occursIn_iff {piece cs : List Char} : occursIn piece cs = true ↔ piece <:+: cs := by
  induction cs with
  | nil => rw [occursIn, List.isEmpty_iff, List.infix_nil]
  | cons c cs ih =>
    rw [occursIn, Bool.or_eq_true, List.isPrefixOf_iff_prefix, ih, List.infix_cons_iff]

/-- Whatever the type is, a name gives the same label. It is given only if there is one, the type
does not show it and it does not describe itself. -/
theorem of_labelFor? {type typeName label : String} (h : labelFor? type typeName = some label) :
    label = String.ofList (labelOf typeName) ∧ labelOf typeName ≠ [] ∧
      ¬label.toList <:+: type.toList ∧ label ∉ selfDescribing := by
  unfold labelFor? at h
  split at h
  · cases h
  · dsimp only at h
    split at h
    · cases h
    · next hchecked =>
      obtain rfl := Option.some.inj h
      simp only [Bool.or_eq_true, List.isEmpty_iff, List.contains_iff_mem, not_or] at hchecked
      obtain ⟨⟨hne, hshown⟩, hdescribing⟩ := hchecked
      rw [String.toList_ofList, ← occursIn_iff]
      exact ⟨rfl, hne, hshown, hdescribing⟩

/-- What stands between the brackets of an option, if the text is one on a single line. A line
break after the closing bracket is kept. -/
def insideOption (cs : List Char) : List Char :=
  match Text.after? ['O', 'p', 't', 'i', 'o', 'n', '<'] cs with
  | none => cs
  | some rest =>
    let (body, tail) := if rest.getLast? = some '\n' then (rest.dropLast, ['\n']) else (rest, [])
    if body.getLast? = some '>' && !body.contains '\n' then body.dropLast ++ tail else cs

/-- The hint for what is inside an option: the hint for the option less one option around it. -/
def optionHint (hint : Option String) : Option String :=
  hint.map fun h => String.ofList (insideOption h.toList)

end Label

end ChainTypings
