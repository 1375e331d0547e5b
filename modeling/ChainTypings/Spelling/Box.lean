import ChainTypings.Bracket
import ChainTypings.Spelling.Rule

/-!
# Boxes

A box around a type is dropped with its brackets. The first box of the text goes first; a box
whose bracket never closes ends the work, so that later ones stay.
-/

namespace ChainTypings.Spelling

open Text

/-- Splits a text at its first box: what stands before it and what follows its opening bracket.
The word of a box does not start inside another. -/
def firstBox? : Bool → List Char → Option (List Char × List Char)
  | _, [] => none
  | inWord, c :: cs =>
    match if inWord then none else after? ['B', 'o', 'x', '<'] (c :: cs) with
    | some rest => some ([], rest)
    | none => (firstBox? (isWordChar c) cs).map fun (before, rest) => (c :: before, rest)

/-- The text without the box that comes first; none if there is no box or its bracket never
closes. -/
def dropBox? (cs : List Char) : Option (List Char) :=
  match firstBox? false cs with
  | none => none
  | some (before, rest) =>
    (Bracket.enclosed 0 rest).map fun (inside, after) => before ++ (inside ++ after)

theorem firstBox?_eq {inWord : Bool} {cs before rest : List Char}
    (h : firstBox? inWord cs = some (before, rest)) :
    cs = before ++ ('B' :: 'o' :: 'x' :: '<' :: rest) := by
  induction cs generalizing inWord before rest with
  | nil => simp [firstBox?] at h
  | cons c cs ih =>
    unfold firstBox? at h
    split at h
    · next r hr =>
      obtain ⟨rfl, rfl⟩ := Prod.mk.inj (Option.some.inj h)
      cases inWord with
      | true => simp at hr
      | false => simpa using after?_eq hr
    · obtain ⟨⟨b, r⟩, hb, he⟩ := Option.map_eq_some_iff.1 h
      obtain ⟨rfl, rfl⟩ := Prod.mk.inj he
      rw [ih hb, List.cons_append]

/-- What a box drops: its word, its opening bracket and its closing one. -/
theorem dropBox?_eq {cs new : List Char} (h : dropBox? cs = some new) :
    ∃ before inside after k, cs = before ++ ('B' :: 'o' :: 'x' :: '<' :: (inside ++ k :: after)) ∧
      new = before ++ (inside ++ after) := by
  unfold dropBox? at h
  split at h
  · simp at h
  · next before rest hf =>
    obtain ⟨⟨inside, after⟩, he, rfl⟩ := Option.map_eq_some_iff.1 h
    obtain ⟨k, rfl⟩ := Bracket.enclosed_eq he
    exact ⟨before, inside, after, k, firstBox?_eq hf, rfl⟩

theorem dropBox?_shorter {cs new : List Char} (h : dropBox? cs = some new) :
    new.length < cs.length := by
  obtain ⟨before, inside, after, k, rfl, rfl⟩ := dropBox?_eq h
  simp
  omega

/-- Drops boxes, the first one first. -/
def unbox (cs : List Char) : List Char :=
  match _found : dropBox? cs with
  | some new => unbox new
  | none => cs
termination_by cs.length
decreasing_by exact dropBox?_shorter _found

end ChainTypings.Spelling
