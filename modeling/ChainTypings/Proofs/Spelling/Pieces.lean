import ChainTypings.Proofs.Bracket.Check
import ChainTypings.Spelling.Normal

/-!
# Pieces that a pass finds

A rule asks at every place of a text whether a piece starts there, and it is told whether a word
goes on in front. `Rule.FindsNothing` says that it recognises nothing anywhere. For the rules whose
pieces start where no word goes on, this is said of the text alone: `Shows Q cs` says that in some
such place of `cs` the rest of the text is as `Q` says. So a path, a word for text and a byte
sequence are described here by how they are written, and a box by the bracket that closes it
(`dropBox?_eq_none_iff`).
-/

namespace ChainTypings.Spelling

open Text ChainTypings.Bracket

/-- Whether a word goes on behind a text, told whether one goes on in front of it. -/
def wordBehind : Bool → List Char → Bool
  | inWord, [] => inWord
  | _, c :: cs => wordBehind (isWordChar c) cs

/-- Somewhere in the text, where no word goes on, what follows has the property. -/
def ShowsFrom (inWord : Bool) (Q : List Char → Prop) (cs : List Char) : Prop :=
  ∃ before after, cs = before ++ after ∧ wordBehind inWord before = false ∧ Q after

@[inherit_doc ShowsFrom]
abbrev Shows : (List Char → Prop) → List Char → Prop := ShowsFrom false

/-- The rule recognises no piece in the text. -/
def Rule.FindsNothing (r : Rule) (inWord : Bool) (cs : List Char) : Prop :=
  ∀ before after, cs = before ++ after → r.find? (wordBehind inWord before) after = none

theorem showsFrom_cons {inWord : Bool} {Q : List Char → Prop} {c : Char} {cs : List Char} :
    ShowsFrom inWord Q (c :: cs) ↔
      (inWord = false ∧ Q (c :: cs)) ∨ ShowsFrom (isWordChar c) Q cs := by
  constructor
  · rintro ⟨before, after, heq, hword, hafter⟩
    cases before with
    | nil =>
      obtain rfl : c :: cs = after := heq
      exact .inl ⟨hword, hafter⟩
    | cons d before =>
      obtain ⟨rfl, rfl⟩ := List.cons.inj heq
      exact .inr ⟨before, after, rfl, hword, hafter⟩
  · rintro (⟨hword, hQ⟩ | ⟨before, after, rfl, hword, hafter⟩)
    · exact ⟨[], c :: cs, rfl, hword, hQ⟩
    · exact ⟨c :: before, after, rfl, hword, hafter⟩

/-! ## Rules -/

namespace Rule

variable {r : Rule} {inWord : Bool} {c : Char} {cs : List Char}

theorem findsNothing_nil (r : Rule) (inWord : Bool) : r.FindsNothing inWord [] := by
  intro before after h
  obtain ⟨rfl, rfl⟩ := List.append_eq_nil_iff.1 h.symm
  exact r.find?_nil inWord

theorem findsNothing_cons :
    r.FindsNothing inWord (c :: cs) ↔
      r.find? inWord (c :: cs) = none ∧ r.FindsNothing (isWordChar c) cs := by
  constructor
  · intro h
    exact ⟨h [] (c :: cs) rfl, fun before after heq => h (c :: before) after (by rw [heq]; rfl)⟩
  · rintro ⟨hfirst, hlater⟩ before after heq
    cases before with
    | nil =>
      obtain rfl : c :: cs = after := heq
      exact hfirst
    | cons d before =>
      obtain ⟨rfl, rfl⟩ := List.cons.inj heq
      exact hlater before after rfl

/-- A rule that recognises nothing changes nothing. -/
theorem FindsNothing.applyFrom_eq (h : r.FindsNothing inWord cs) : r.applyFrom inWord cs = cs := by
  induction cs generalizing inWord with
  | nil => exact r.applyFrom_nil inWord
  | cons c cs ih =>
    obtain ⟨hfirst, hlater⟩ := findsNothing_cons.1 h
    rw [applyFrom_of_none hfirst, ih hlater]

/-- A rule whose pieces start where no word goes on, told by what follows. -/
theorem findsNothing_iff_not_shows {Q : List Char → Prop}
    (hr : ∀ inWord after, r.find? inWord after ≠ none ↔ inWord = false ∧ Q after) :
    r.FindsNothing false cs ↔ ¬Shows Q cs := by
  constructor
  · rintro h ⟨before, after, heq, hword, hafter⟩
    exact (hr _ after).2 ⟨hword, hafter⟩ (h before after heq)
  · intro h before after heq
    cases hfind : r.find? (wordBehind false before) after with
    | none => rfl
    | some found =>
      obtain ⟨hword, hafter⟩ := (hr _ after).1 (by rw [hfind]; exact Option.some_ne_none found)
      exact absurd ⟨before, after, heq, hword, hafter⟩ h

end Rule

/-! ## Paths, words for text and byte sequences -/

/-- A segment of a path stands in front. -/
def StartsWithSegment (cs : List Char) : Prop :=
  ∃ first others rest, cs = first :: (others ++ ':' :: ':' :: rest) ∧
    isSegmentStart first = true ∧ ∀ c ∈ others, isWordChar c = true

/-- A word for text stands in front, as a whole word. -/
def StartsWithText (cs : List Char) : Prop :=
  ∃ word ∈ ["String".toList, "str".toList], ∃ rest, cs = word ++ rest ∧
    ∀ c ∈ rest.head?, isWordChar c = false

/-- A vector or a slice of bytes stands in front. -/
def StartsWithBytes (cs : List Char) : Prop :=
  "Vec<u8>".toList <+: cs ∨ "[u8]".toList <+: cs

/-- A box stands in front. -/
def StartsWithBox (cs : List Char) : Prop := "Box<".toList <+: cs

theorem after?_ne_none_iff {piece cs : List Char} : after? piece cs ≠ none ↔ piece <+: cs := by
  rw [Option.ne_none_iff_exists']
  constructor
  · rintro ⟨rest, h⟩
    exact ⟨rest, (after?_eq h).symm⟩
  · rintro ⟨rest, rfl⟩
    refine ⟨rest, ?_⟩
    induction piece with
    | nil => rfl
    | cons p piece ih => simpa [after?] using ih

theorem dropWhile_isWordChar_append {word : List Char} (h : ∀ c ∈ word, isWordChar c = true)
    {rest : List Char} (hrest : ∀ c ∈ rest.head?, isWordChar c = false) :
    (word ++ rest).takeWhile isWordChar = word ∧ (word ++ rest).dropWhile isWordChar = rest := by
  rw [List.takeWhile_append_of_pos h, List.dropWhile_append_of_pos h]
  cases rest with
  | nil => simp
  | cons c rest =>
    have hc := hrest c rfl
    simp [hc]

theorem path_findsNothing_iff {cs : List Char} :
    path.FindsNothing false cs ↔ ¬Shows StartsWithSegment cs := by
  refine Rule.findsNothing_iff_not_shows fun inWord after => ?_
  cases after with
  | nil => simp [path, removal, afterSegment?, StartsWithSegment]
  | cons c cs =>
    have hfind : path.find? inWord (c :: cs) ≠ none ↔ (inWord = false ∧ isSegmentStart c = true) ∧
        [':', ':'] <+: cs.dropWhile isWordChar := by
      rw [← after?_ne_none_iff]
      simp only [path, removal, afterSegment?, ne_eq, Option.map_eq_none_iff]
      cases inWord <;> cases isSegmentStart c <;> simp
    rw [hfind, and_assoc]
    refine and_congr_right fun _ => ⟨?_, ?_⟩
    · rintro ⟨hstart, rest, hrest⟩
      refine ⟨c, cs.takeWhile isWordChar, rest, ?_, hstart,
        fun d hd => List.all_eq_true.1 List.all_takeWhile d hd⟩
      have hcut := List.takeWhile_append_dropWhile (p := isWordChar) (l := cs)
      rw [← hrest] at hcut
      exact congrArg (c :: ·) hcut.symm
    · rintro ⟨first, others, rest, heq, hstart, hothers⟩
      obtain ⟨rfl, rfl⟩ := List.cons.inj heq
      have hcolon : ∀ d ∈ (':' :: ':' :: rest).head?, isWordChar d = false := by
        intro d hd
        obtain rfl := Option.some.inj hd
        decide
      exact ⟨hstart, rest, (dropWhile_isWordChar_append hothers hcolon).2.symm⟩

theorem textAlias_findsNothing_iff {cs : List Char} :
    textAlias.FindsNothing false cs ↔ ¬Shows StartsWithText cs := by
  refine Rule.findsNothing_iff_not_shows fun inWord after => ?_
  have hfind : textAlias.find? inWord after ≠ none ↔
      inWord = false ∧ after.takeWhile isWordChar ∈ ["String".toList, "str".toList] := by
    have hwords : ["String".toList, "str".toList] =
        [['S', 't', 'r', 'i', 'n', 'g'], ['s', 't', 'r']] := by decide
    rw [hwords, List.mem_cons, List.mem_singleton]
    simp only [textAlias, textWord?]
    cases inWord <;> simp [Decidable.or_iff_not_imp_left]
  rw [hfind]
  refine and_congr_right fun _ => ⟨fun h => ?_, ?_⟩
  · refine ⟨_, h, after.dropWhile isWordChar, List.takeWhile_append_dropWhile.symm, ?_⟩
    intro c hc
    have := List.head?_dropWhile_not isWordChar after
    simp_all
  · rintro ⟨word, hmem, rest, rfl, hrest⟩
    have hword : ∀ c ∈ word, isWordChar c = true := by
      have hall : ["String".toList, "str".toList].all (·.all isWordChar) = true := by decide
      exact List.all_eq_true.1 (List.all_eq_true.1 hall word hmem)
    rwa [(dropWhile_isWordChar_append hword hrest).1]

theorem bytesAlias_findsNothing_iff {cs : List Char} :
    bytesAlias.FindsNothing false cs ↔ ¬Shows StartsWithBytes cs := by
  refine Rule.findsNothing_iff_not_shows fun inWord after => ?_
  have hvec : "Vec<u8>".toList = ['V', 'e', 'c', '<', 'u', '8', '>'] := by decide
  have hslice : "[u8]".toList = ['[', 'u', '8', ']'] := by decide
  rw [StartsWithBytes, ← after?_ne_none_iff, ← after?_ne_none_iff, hvec, hslice]
  simp only [bytesAlias, byteSequence?, replaceFirst?, List.findSome?_cons, List.findSome?_nil]
  cases inWord with
  | true => simp
  | false =>
    cases after? ['V', 'e', 'c', '<', 'u', '8', '>'] after <;>
      cases after? ['[', 'u', '8', ']'] after <;> simp

/-! ## Boxes -/

theorem toList_box : "Box<".toList = ['B', 'o', 'x', '<'] := by decide

theorem startsWithBox_iff {cs : List Char} :
    StartsWithBox cs ↔ ∃ rest, after? ['B', 'o', 'x', '<'] cs = some rest := by
  rw [StartsWithBox, toList_box, ← after?_ne_none_iff, Option.ne_none_iff_exists']

/-- A box that starts within a text starts within what stands in front of a later box. -/
theorem startsWithBox_of_append {cs rest : List Char} (hne : cs ≠ [])
    (h : StartsWithBox (cs ++ ("Box<".toList ++ rest))) : StartsWithBox cs := by
  rw [StartsWithBox, toList_box] at h ⊢
  match cs, hne, h with
  | [a], _, h => simp at h
  | [a, b], _, h => simp at h
  | [a, b, c], _, h => simp at h
  | a :: b :: c :: d :: cs, _, h => simpa using h

theorem not_showsFrom_nil {inWord : Bool} : ¬ShowsFrom inWord StartsWithBox [] := by
  rintro ⟨before, after, heq, -, hstarts⟩
  obtain ⟨rfl, rfl⟩ := List.append_eq_nil_iff.1 heq.symm
  simp [StartsWithBox, toList_box] at hstarts

/-- A box in front is the first one. -/
theorem firstBox?_box (rest : List Char) :
    firstBox? false ("Box<".toList ++ rest) = some ([], rest) := by
  rw [toList_box]
  simp [firstBox?, after?]

/-- Where no box starts, the search goes on behind the character. -/
theorem firstBox?_cons {inWord : Bool} {c : Char} {cs : List Char}
    (h : ¬(inWord = false ∧ StartsWithBox (c :: cs))) :
    firstBox? inWord (c :: cs) = (firstBox? (isWordChar c) cs).map fun p => (c :: p.1, p.2) := by
  have hnone : (if inWord then none else after? ['B', 'o', 'x', '<'] (c :: cs)) = none := by
    cases inWord with
    | true => rfl
    | false =>
      rw [if_neg Bool.false_ne_true, Option.eq_none_iff_forall_ne_some]
      exact fun rest hrest => h ⟨rfl, startsWithBox_iff.2 ⟨rest, hrest⟩⟩
  rw [firstBox?, hnone]

/-- The first box of a text: no box starts in front of it. -/
theorem firstBox?_eq_some_iff {inWord : Bool} {cs before rest : List Char} :
    firstBox? inWord cs = some (before, rest) ↔
      cs = before ++ ("Box<".toList ++ rest) ∧ wordBehind inWord before = false ∧
      ¬ShowsFrom inWord StartsWithBox before := by
  induction cs generalizing inWord before with
  | nil => simp [firstBox?, toList_box]
  | cons c cs ih =>
    by_cases hhere : inWord = false ∧ StartsWithBox (c :: cs)
    · -- the first box starts here, and a later one would have it in front
      obtain ⟨rfl, rest', heq⟩ := hhere
      rw [← heq, firstBox?_box, Option.some.injEq, Prod.mk.injEq]
      constructor
      · rintro ⟨rfl, rfl⟩
        exact ⟨rfl, rfl, not_showsFrom_nil⟩
      · rintro ⟨hcut, -, hbefore⟩
        cases before with
        | nil => exact ⟨rfl, List.append_cancel_left hcut⟩
        | cons d before =>
          refine absurd ⟨[], d :: before, rfl, rfl, ?_⟩ hbefore
          exact startsWithBox_of_append (List.cons_ne_nil d before) ⟨rest', hcut⟩
    · rw [firstBox?_cons hhere, Option.map_eq_some_iff]
      constructor
      · rintro ⟨⟨before', rest'⟩, hlater, heq⟩
        obtain ⟨rfl, rfl⟩ := Prod.mk.inj heq
        obtain ⟨rfl, hword, hbefore⟩ := ih.1 hlater
        refine ⟨rfl, hword, ?_⟩
        rw [showsFrom_cons, not_or]
        refine ⟨?_, hbefore⟩
        rintro ⟨hw, hstarts⟩
        exact hhere ⟨hw, hstarts.trans (List.prefix_append (c :: before') _)⟩
      · rintro ⟨hcut, hword, hbefore⟩
        cases before with
        | nil => exact absurd ⟨hword, rest, hcut.symm⟩ hhere
        | cons d before =>
          obtain ⟨rfl, htail⟩ := List.cons.inj hcut
          rw [showsFrom_cons, not_or] at hbefore
          exact ⟨(before, rest), ih.2 ⟨htail, hword, hbefore.2⟩, rfl⟩

/-- No box is dropped if the bracket of the first one never closes. -/
theorem dropBox?_eq_none_iff {cs : List Char} :
    dropBox? cs = none ↔ ∀ before inside closer after,
      cs = before ++ ("Box<".toList ++ (inside ++ closer :: after)) →
      wordBehind false before = false → ¬Shows StartsWithBox before →
      isOpener closer = false → isCloser closer = true → nests 0 inside = false := by
  constructor
  · intro h before inside closer after heq hword hbefore ho hc
    have hfirst := firstBox?_eq_some_iff.2 ⟨heq, hword, hbefore⟩
    rw [dropBox?, hfirst, Option.map_eq_none_iff] at h
    rw [Bool.eq_false_iff]
    intro hinside
    have hfound : enclosed 0 (inside ++ closer :: after) = some (inside, after) :=
      enclosed_eq_some_iff.2 ⟨closer, rfl, ho, hc, hinside⟩
    rw [h] at hfound
    cases hfound
  · intro h
    rw [dropBox?]
    split
    · rfl
    · next before rest hfirst =>
      obtain ⟨heq, hword, hbefore⟩ := firstBox?_eq_some_iff.1 hfirst
      cases hfound : enclosed 0 rest with
      | none => rfl
      | some found =>
        obtain ⟨k, rfl, ho, hc, hinside⟩ := enclosed_eq_some_iff.1 hfound
        rw [h before _ k _ heq hword hbefore ho hc] at hinside
        cases hinside

end ChainTypings.Spelling
