import ChainTypings.Proofs.Spelling.Cut
import ChainTypings.Text.Words
import Mathlib.Data.List.Basic
import Mathlib.Tactic.ByContra

/-!
# Names in camel case and in Pascal case

Something is left of a name in camel or Pascal case unless it is made of nothing but what stands
between words (`camelCase_eq_nil_iff`, `pascalCase_eq_nil_iff`). Two names can become one. Names in
snake case stay apart in camel case, for their words can be read off the large letters
(`SnakeName.camelCase_injective`), and a name in Pascal case is its own form (`pascalCase_eq_self`).
-/

namespace ChainTypings.Text

/-! ## Stretches -/

section

variable {isGap : Char → Bool}

theorem stretches_cons_of_gap {c : Char} (hc : isGap c = true) (cs : List Char) :
    stretches isGap (c :: cs) = stretches isGap cs := by
  rw [stretches.eq_def]
  simp only [hc, if_true]

/-- A character in front of a gap is a stretch of its own. -/
theorem stretches_cons_cons_of_gap {c g : Char} (hc : isGap c = false) (hg : isGap g = true)
    (cs : List Char) : stretches isGap (c :: g :: cs) = [c] :: stretches isGap cs := by
  rw [stretches.eq_def]
  simp only [hc, Bool.false_eq_true, if_false, stretches_cons_of_gap hg]
  cases stretches isGap cs <;> simp [hg]

/-- A character in front of a stretch belongs to it. -/
theorem stretches_cons_cons {c d : Char} (hc : isGap c = false) (hd : isGap d = false)
    {cs s : List Char} {rest : List (List Char)} (h : stretches isGap (d :: cs) = s :: rest) :
    stretches isGap (c :: d :: cs) = (c :: s) :: rest := by
  rw [stretches.eq_def]
  simp [hc, h, hd]

/-- Text without gaps is the first stretch up to the gap behind it. -/
theorem stretches_append_cons {w : List Char} (hne : w ≠ []) (hw : ∀ c ∈ w, isGap c = false)
    {g : Char} (hg : isGap g = true) (rest : List Char) :
    stretches isGap (w ++ g :: rest) = w :: stretches isGap rest := by
  induction w with
  | nil => exact absurd rfl hne
  | cons c w ih =>
    simp only [List.forall_mem_cons] at hw
    cases w with
    | nil => exact stretches_cons_cons_of_gap hw.1 hg rest
    | cons d w =>
      exact stretches_cons_cons hw.1 (hw.2 d List.mem_cons_self) (ih (List.cons_ne_nil _ _) hw.2)

/-- Text without gaps is one stretch. -/
theorem stretches_of_forall {w : List Char} (hne : w ≠ []) (hw : ∀ c ∈ w, isGap c = false) :
    stretches isGap w = [w] := by
  induction w with
  | nil => exact absurd rfl hne
  | cons c w ih =>
    simp only [List.forall_mem_cons] at hw
    cases w with
    | nil => simp [stretches.eq_def, hw.1]
    | cons d w =>
      exact stretches_cons_cons hw.1 (hw.2 d List.mem_cons_self) (ih (List.cons_ne_nil _ _) hw.2)

/-- A text that is not all gaps has a first stretch, and that is not empty. -/
theorem exists_stretches_eq {cs : List Char} (h : ∃ c ∈ cs, isGap c = false) :
    ∃ c s rest, stretches isGap cs = (c :: s) :: rest := by
  induction cs with
  | nil => simp at h
  | cons c cs ih =>
    cases hc : isGap c with
    | true =>
      rw [stretches_cons_of_gap hc]
      exact ih (by simpa [hc] using h)
    | false =>
      cases cs with
      | nil => exact ⟨c, [], [], stretches_of_forall (by simp) (by simpa using hc)⟩
      | cons d cs =>
        cases hd : isGap d with
        | true => exact ⟨c, [], _, stretches_cons_cons_of_gap hc hd cs⟩
        | false =>
          obtain ⟨e, s, rest, hs⟩ := ih ⟨d, List.mem_cons_self, hd⟩
          exact ⟨c, e :: s, rest, stretches_cons_cons hc hd hs⟩

theorem stretches_of_gaps {cs : List Char} (h : ∀ c ∈ cs, isGap c = true) :
    stretches isGap cs = [] := by
  induction cs with
  | nil => rfl
  | cons c cs ih =>
    simp only [List.forall_mem_cons] at h
    rw [stretches_cons_of_gap h.1, ih h.2]

end

/-! ## Nothing left -/

theorem upper_ne_nil (c : Char) : upper c ≠ [] := by
  have hexpansions : ∀ e ∈ upperExpansions, e.2 ≠ [] := by decide
  unfold upper
  split
  · next cs hcs =>
    obtain ⟨front, back, htable, -⟩ := List.lookup_eq_some_iff.1 hcs
    exact hexpansions (c.toNat, cs) (by simp [htable])
  · simp

theorem lower_ne_nil (c : Char) : lower c ≠ [] := by
  unfold lower
  split <;> simp

theorem lowerWord_ne_nil (c : Char) (cs : List Char) : lowerWord (c :: cs) ≠ [] := by
  rw [lowerWord, lowerAfter]
  split
  · split <;> simp
  · simp [lower_ne_nil]

theorem decapitalize_ne_nil (c : Char) (cs : List Char) : decapitalize (c :: cs) ≠ [] := by
  rw [decapitalize]
  split
  · exact lowerWord_ne_nil c cs
  · simp [lower_ne_nil]

/-- Nothing is left of a name in camel case if it holds nothing but what stands between words. -/
theorem camelCase_eq_nil_iff {cs : List Char} :
    camelCase cs = [] ↔ ∀ c ∈ cs, isWordGap c = true := by
  refine ⟨fun h => ?_, fun h => by rw [camelCase, words, stretches_of_gaps h]⟩
  by_contra hword
  have hkept : ∃ c ∈ cs, isWordGap c = false := by simpa using hword
  obtain ⟨c, s, rest, hs⟩ := exists_stretches_eq hkept
  rw [camelCase, words, hs] at h
  exact decapitalize_ne_nil c s (List.append_eq_nil_iff.1 h).1

theorem pascalCase_eq_nil_iff {cs : List Char} :
    pascalCase cs = [] ↔ ∀ c ∈ cs, isWordGap c = true := by
  refine ⟨fun h => ?_, fun h => by rw [pascalCase, words, stretches_of_gaps h]; rfl⟩
  by_contra hword
  have hkept : ∃ c ∈ cs, isWordGap c = false := by simpa using hword
  obtain ⟨c, s, rest, hs⟩ := exists_stretches_eq hkept
  rw [pascalCase, words, hs, List.flatMap_cons, capitalize] at h
  simp [upper_ne_nil] at h

/-! ## Names in Pascal case -/

theorem isAlphanum_eq (c : Char) : c.isAlphanum = (c.isUpper || c.isLower || c.isDigit) := rfl

theorem isWordGap_eq_false_of_isAlphanum {c : Char} (h : c.isAlphanum = true) :
    isWordGap c = false := by
  have hchar : isAsciiWordChar c = true := by simp [isAsciiWordChar, h]
  have hne : c ≠ '_' ∧ c ≠ '-' := by
    constructor <;> rintro rfl <;> exact absurd h (by decide)
  simp [isWordGap, isBlank_eq_false_of_isAsciiWordChar hchar, hne]

/-- A name in Pascal case: a large letter, then letters and digits. -/
def IsPascal (cs : List Char) : Prop :=
  ∃ c t, cs = c :: t ∧ c.isUpper = true ∧ ∀ d ∈ t, d.isAlphanum = true

/-- A large ASCII letter is its own upper-case form. -/
theorem upper_of_isUpper {c : Char} (h : c.isUpper = true) : upper c = [c] := by
  have hall := forall_asciiWordChar (p := fun c => !c.isUpper || decide (upper c = [c]))
    (by decide +kernel) (c := c) (by simp [isAsciiWordChar, isAlphanum_eq, h])
  simpa [h] using hall

/-- A name in Pascal case is its own form. -/
theorem pascalCase_eq_self {cs : List Char} (h : IsPascal cs) : pascalCase cs = cs := by
  obtain ⟨c, t, rfl, hc, ht⟩ := h
  have hword : ∀ d ∈ c :: t, isWordGap d = false := by
    simp only [List.forall_mem_cons]
    exact ⟨isWordGap_eq_false_of_isAlphanum (by simp [isAlphanum_eq, hc]),
      fun d hd => isWordGap_eq_false_of_isAlphanum (ht d hd)⟩
  rw [pascalCase, words, stretches_of_forall (by simp) hword]
  simp [capitalize, upper_of_isUpper hc]

/-! ## Names in snake case -/

/-- What the case mappings make of a small letter. -/
structure MapsSmall (c : Char) : Prop where
  upper_eq : upper c = [c.toUpper]
  lower_eq : lower c = [c]
  small : isLower c = true
  large : c.toUpper.isUpper = true
  back : c.toUpper.toLower = c

theorem mapsSmall_of_isLower {c : Char} (h : c.isLower = true) : MapsSmall c := by
  have hall := forall_asciiWordChar (p := fun c => !c.isLower || decide (upper c = [c.toUpper] ∧
      lower c = [c] ∧ isLower c = true ∧ c.toUpper.isUpper = true ∧ c.toUpper.toLower = c))
    (by decide +kernel) (c := c) (by simp [isAsciiWordChar, isAlphanum_eq, h])
  obtain ⟨hupper, hlower, hsmall, hlarge, hback⟩ : upper c = [c.toUpper] ∧ lower c = [c] ∧
      isLower c = true ∧ c.toUpper.isUpper = true ∧ c.toUpper.toLower = c := by
    simpa [h] using hall
  exact ⟨hupper, hlower, hsmall, hlarge, hback⟩

/-- Whether the character is a small ASCII letter or an ASCII digit. -/
def isSmall (c : Char) : Bool := c.isLower || c.isDigit

theorem isAlphanum_of_isSmall {c : Char} (h : isSmall c = true) : c.isAlphanum = true := by
  simp only [isSmall, Bool.or_eq_true] at h
  rcases h with h | h <;> simp [isAlphanum_eq, h]

theorem isUpper_eq_false_of_isSmall {c : Char} (h : isSmall c = true) : c.isUpper = false := by
  have hall := forall_asciiWordChar (p := fun c => !(isSmall c && c.isUpper)) (by decide +kernel)
    (c := c) (by simp [isAsciiWordChar, isAlphanum_of_isSmall h])
  simpa [h] using hall

/-- A word of a name in snake case: a small letter, then small letters and digits. -/
@[ext]
structure SmallWord where
  first : Char
  rest : List Char
  letter : first.isLower = true
  small : ∀ c ∈ rest, isSmall c = true

namespace SmallWord

variable (w : SmallWord)

/-- The text of the word. -/
def chars : List Char := w.first :: w.rest

/-- The word with a large first letter. -/
def large : List Char := w.first.toUpper :: w.rest

theorem maps : MapsSmall w.first := mapsSmall_of_isLower w.letter

theorem isSmall_chars : ∀ c ∈ w.chars, isSmall c = true := by
  simp only [chars, List.forall_mem_cons]
  exact ⟨by simp [isSmall, w.letter], w.small⟩

theorem isWordGap_chars : ∀ c ∈ w.chars, isWordGap c = false := fun c hc =>
  isWordGap_eq_false_of_isAlphanum (isAlphanum_of_isSmall (w.isSmall_chars c hc))

theorem capitalize_chars : capitalize w.chars = w.large := by
  rw [chars, capitalize, w.maps.upper_eq]
  rfl

/-- The word is not all in upper case, and its first letter is small already. -/
theorem decapitalize_chars : decapitalize w.chars = w.chars := by
  have hnot : isUpperWord w.chars = false := by simp [isUpperWord, chars, w.maps.small]
  rw [chars] at hnot ⊢
  rw [decapitalize, hnot, w.maps.lower_eq]
  rfl

/-- The words behind a text without large letters can be read off the large letters. -/
theorem append_flatMap_large_inj {xs ys : List Char} (hx : ∀ c ∈ xs, isSmall c = true)
    (hy : ∀ c ∈ ys, isSmall c = true) {ws vs : List SmallWord}
    (h : xs ++ ws.flatMap large = ys ++ vs.flatMap large) : xs = ys ∧ ws = vs := by
  have hsmall {cs : List Char} (hcs : ∀ c ∈ cs, isSmall c = true) :
      ∀ c ∈ cs, (!c.isUpper) = true := fun c hc => by
    rw [isUpper_eq_false_of_isSmall (hcs c hc)]
    rfl
  have hlarge (w : SmallWord) : (!w.first.toUpper.isUpper) = false := by
    rw [w.maps.large]
    rfl
  have hapart {cs : List Char} (hcs : ∀ c ∈ cs, isSmall c = true) (w : SmallWord) :
      w.first.toUpper ∉ cs := fun hmem => by
    have hfirst := hsmall hcs _ hmem
    rw [hlarge w] at hfirst
    exact Bool.noConfusion hfirst
  induction ws generalizing xs ys vs with
  | nil =>
    rw [List.flatMap_nil, List.append_nil] at h
    cases vs with
    | nil => simpa using h
    | cons v vs => exact absurd (by simp [h, large]) (hapart hx v)
  | cons w ws ih =>
    cases vs with
    | nil =>
      rw [List.flatMap_nil, List.append_nil] at h
      exact absurd (by simp [← h, large]) (hapart hy w)
    | cons v vs =>
      obtain ⟨rfl, hletter, hrest⟩ := append_cons_inj (p := fun c => !c.isUpper) (hsmall hx)
        (hsmall hy) (hlarge w) (hlarge v) h
      obtain ⟨hword, rfl⟩ := ih w.small v.small hrest
      have hfirst : w.first = v.first := by
        rw [← w.maps.back, hletter, v.maps.back]
      exact ⟨rfl, congrArg (· :: ws) (SmallWord.ext hfirst hword)⟩

end SmallWord

/-- A name in snake case: small words with an underscore between each and the next. -/
structure SnakeName where
  first : SmallWord
  later : List SmallWord

namespace SnakeName

variable (n : SnakeName)

/-- The text of the name. -/
def chars : List Char := ['_'].intercalate ((n.first :: n.later).map SmallWord.chars)

theorem words_chars : words n.chars = (n.first :: n.later).map SmallWord.chars := by
  obtain ⟨w, ws⟩ := n
  rw [chars]
  dsimp only
  induction ws generalizing w with
  | nil =>
    rw [List.map_cons, List.map_nil, List.intercalate_singleton]
    exact stretches_of_forall (by simp [SmallWord.chars]) w.isWordGap_chars
  | cons v vs ih =>
    rw [List.map_cons, List.map_cons, List.intercalate_cons_cons, List.append_assoc,
      List.singleton_append]
    exact (stretches_append_cons (by simp [SmallWord.chars]) w.isWordGap_chars rfl _).trans
      (congrArg _ (ih v))

/-- In camel case the words behind the first one have large first letters. -/
theorem camelCase_chars : camelCase n.chars = n.first.chars ++ n.later.flatMap SmallWord.large := by
  rw [camelCase, words_chars, List.map_cons]
  simp only [SmallWord.decapitalize_chars, List.flatMap_map, SmallWord.capitalize_chars]

/-- Names in snake case that are the same in camel case are the same. -/
theorem camelCase_injective {n m : SnakeName} (h : camelCase n.chars = camelCase m.chars) :
    n.chars = m.chars := by
  rw [camelCase_chars, camelCase_chars] at h
  obtain ⟨hfirst, hlater⟩ := SmallWord.append_flatMap_large_inj n.first.isSmall_chars
    m.first.isSmall_chars h
  rw [chars, chars, List.map_cons, List.map_cons, hfirst, hlater]

end SnakeName

end ChainTypings.Text
