import ChainTypings.Proofs.Spelling.Parentheses
import ChainTypings.Proofs.Spelling.Projections

/-!
# The front of a normal spelling

A text may begin with a name that nothing is taken off from: no path and no reference stands in
front of it, it is the name of no box, and behind it the text ends or goes on with the punctuation
of types. Every pass of the normal spelling works behind such a name, so the normal spelling begins
with it too, or with `Text` if it is a word for text (`exists_normalize_eq`).
-/

namespace ChainTypings.Spelling

open Text

/-- The punctuation that may stand right behind a name. An opening parenthesis is not among it,
since it may go and what it encloses then continues the name. -/
def isNameEnd (c : Char) : Bool := isEnd c || c = '<' || c = '['

/-- The function leaves the front of a text in front, whatever follows. -/
def KeepsFront (front : List Char) (f : List Char → List Char) : Prop :=
  ∀ rest, ∃ rest', f (front ++ rest) = front ++ rest'

theorem keepsFront_unbox {front : List Char} (h : Passed front) : KeepsFront front unbox := by
  intro rest
  generalize hcs : front ++ rest = cs
  fun_induction unbox cs generalizing rest with
  | case1 cs new hdrop ih =>
    subst hcs
    -- the first box lies behind the front, so that what it leaves begins with the front too
    rw [dropBox?, h] at hdrop
    cases hfirst : firstBox? false rest with
    | none => simp [hfirst] at hdrop
    | some p =>
      rw [hfirst] at hdrop
      obtain ⟨⟨inside, after⟩, -, rfl⟩ := Option.map_eq_some_iff.1 hdrop
      exact ih (p.1 ++ (inside ++ after)) (List.append_assoc _ _ _).symm
  | case2 cs _ => exact ⟨rest, hcs.symm⟩

theorem keepsFront_flatten {front : List Char} (h : '(' ∉ front) : KeepsFront front flatten := by
  intro rest
  generalize hcs : front ++ rest = cs
  fun_induction flatten cs generalizing rest with
  | case1 cs once _ ih =>
    subst hcs
    exact ih (oneElement.apply rest) (oneElement_beginsWith.apply_append h rest).symm
  | case2 cs once _ =>
    subst hcs
    exact ⟨oneElement.apply rest, oneElement_beginsWith.apply_append h rest⟩

section

variable {w : AsciiWord} {c : Char}

theorem isMark_of_isNameEnd (hc : isNameEnd c = true) : isMark c = true := by
  simp only [isNameEnd, Bool.or_eq_true, decide_eq_true_eq] at hc
  rcases hc with (hc | rfl) | rfl
  · exact isMark_of_isEnd hc
  · rfl
  · rfl

/-- The rule of byte sequences goes over a name that is no vector's. -/
theorem keepsFront_bytesAlias (hc : isWordChar c = false) (hvec : ¬(w = .vec ∧ c = '<')) :
    KeepsFront (w.chars ++ [c]) bytesAlias.apply := by
  intro rest
  rw [List.append_assoc, List.singleton_append]
  obtain ⟨x, xs, hx⟩ := w.exists_cons
  have hnone : bytesAlias.find? false (w.chars ++ c :: rest) = none := by
    refine bytesAlias_find?_eq_none ?_ ?_
    · intro tail h
      obtain ⟨hw, rfl, -⟩ := append_cons_inj w.isWordChar AsciiWord.vec.isWordChar hc rfl h
      exact hvec ⟨AsciiWord.ext hw, rfl⟩
    · intro tail h
      rw [hx] at h
      have hword := w.isWordChar x (by rw [hx]; exact List.mem_cons_self)
      rw [(List.cons.inj h).1] at hword
      exact absurd hword (by decide)
  have hbehind : bytesAlias.find? true (c :: rest) = none := rfl
  refine ⟨bytesAlias.applyFrom (isWordChar c) rest, ?_⟩
  rw [Rule.apply, Rule.applyFrom_false_append (fun _ => rfl) w hnone,
    Rule.applyFrom_of_none hbehind, List.append_assoc, List.singleton_append]

/-- The passes up to the boxes work behind the name. -/
theorem exists_uncover_eq (hc : isNameEnd c = true) {rest : List Char}
    (hrest : c = '<' → afterProjection? (c :: rest) = none) :
    ∃ rest', uncover (path.apply (projection.apply (w.chars ++ c :: rest))) =
      w.chars ++ c :: rest' := by
  have hmark := isMark_of_isNameEnd hc
  have hword := isWordChar_eq_false_of_isMark hmark
  have hne : ∀ {d}, isNameEnd d = false → c ≠ d := by
    rintro d hd rfl
    rw [hc] at hd
    cases hd
  have hprojection : projection.apply (c :: rest) = c :: projection.apply rest := by
    by_cases hlt : c = '<'
    · have hfind : projection.find? false (c :: rest) = none := by
        simp [projection, removal, hrest hlt]
      exact Projected.projection_beginsWith.apply_of_none hfind
    · exact Projected.projection_beginsWith.apply_cons hlt rest
  refine ⟨uncover (path.apply (projection.apply rest)), ?_⟩
  rw [Projected.projection_beginsWith.apply_append (w.not_mem_chars rfl), hprojection,
    (path_cuts hword (hne rfl)).splitsAt, path_apply_word w.isWordChar,
    uncover_splitsAt hmark (hne rfl) (hne rfl), uncover_word]

/-- A text that begins with a name which nothing is taken off from has a normal spelling that
begins with this name, or with the one it is given if it is a word for text. -/
theorem exists_normalize_eq (hc : isNameEnd c = true) (hbox : ¬(w = .box ∧ c = '<'))
    (hvec : ¬(w = .vec ∧ c = '<')) {rest : List Char}
    (hrest : c = '<' → afterProjection? (c :: rest) = none) :
    ∃ rest', normalize (w.chars ++ c :: rest) = w.renamed.chars ++ c :: rest' := by
  have hword := isWordChar_eq_false_of_isMark (isMark_of_isNameEnd hc)
  obtain ⟨bare, hbare⟩ := exists_uncover_eq (w := w) hc hrest
  -- the box rule
  have hpassed : Passed (w.chars ++ [c]) :=
    .word w.isWordChar hword fun h => hbox ⟨AsciiWord.ext h.1, h.2⟩
  obtain ⟨packed, hpacked⟩ := keepsFront_unbox hpassed bare
  -- the names for texts and byte sequences
  have htext : textAlias.apply (w.chars ++ c :: packed) =
      w.renamed.chars ++ c :: textAlias.apply packed := by
    rw [(textAlias_cuts hword).splitsAt, textAlias_apply_word]
  have hvec' : ¬(w.renamed = .vec ∧ c = '<') := by
    rw [Phrase.renamed_eq_iff rfl (by decide)]
    exact hvec
  obtain ⟨named, hnamed⟩ := keepsFront_bytesAlias hword hvec' (textAlias.apply packed)
  -- the parentheses
  have hopen : '(' ∉ w.renamed.chars ++ [c] := by
    have hne : c ≠ '(' := by
      rintro rfl
      cases hc
    simpa [hne.symm] using w.renamed.not_mem_chars (c := '(') rfl
  obtain ⟨flat, hflat⟩ := keepsFront_flatten hopen named
  simp only [List.append_assoc, List.singleton_append] at hpacked hnamed hflat
  refine ⟨flat, ?_⟩
  rw [normalize]
  show flatten (bytesAlias.apply (textAlias.apply
    (unbox (uncover (path.apply (projection.apply (w.chars ++ c :: rest))))))) = _
  rw [hbare, hpacked, htext, hnamed, hflat]

end

end ChainTypings.Spelling
