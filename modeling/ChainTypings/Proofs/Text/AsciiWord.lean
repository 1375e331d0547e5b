import ChainTypings.Bracket
import ChainTypings.Text.Blank
import ChainTypings.Text.Digit
import ChainTypings.Text.Word

/-!
# Words and numerals of type texts

The names in a type text are words of ASCII letters, digits and underscores; counts are numerals
of ASCII digits. Both are word characters through and through: no blank, no bracket and no other
mark is among them (`isWordChar_eq_false_of_isMark`), so a reader passes over a word as a whole.

`decimalNumber?_digits` says that a numeral spells its number.
-/

namespace ChainTypings.Text

/-! ## Characters -/

/-- Whether the character is an ASCII letter, an ASCII digit or the underscore. -/
def isAsciiWordChar (c : Char) : Bool := c.isAlphanum || c = '_'

/-- The characters that have a meaning of their own in a type text. -/
def marks : List Char := ['<', '>', '(', ')', '[', ']', '{', '}', ',', ';', ':', '&', '\'']

/-- Whether the character has a meaning of its own in a type text. -/
def isMark (c : Char) : Bool := marks.contains c

theorem toNat_lt_of_isAsciiWordChar {c : Char} (h : isAsciiWordChar c = true) :
    c.toNat < 128 := by
  rw [isAsciiWordChar, Bool.or_eq_true, decide_eq_true_eq] at h
  rcases h with h | rfl
  · delta Char.isAlphanum Char.isAlpha Char.isUpper Char.isLower Char.isDigit at h
    simp only [Bool.or_eq_true, Bool.and_eq_true, decide_eq_true_eq,
      UInt32.le_iff_toNat_le] at h
    have : c.toNat = c.val.toNat := rfl
    simp at h
    omega
  · decide

/-- What holds of the ASCII word characters one by one holds of each of them. -/
theorem forall_asciiWordChar {p : Char → Bool}
    (hp : ∀ n < 128, isAsciiWordChar (Char.ofNat n) = true → p (Char.ofNat n) = true)
    {c : Char} (h : isAsciiWordChar c = true) : p c = true := by
  have := hp c.toNat (toNat_lt_of_isAsciiWordChar h)
  rw [Char.ofNat_toNat] at this
  exact this h

theorem isWordChar_of_isAsciiWordChar {c : Char} (h : isAsciiWordChar c = true) :
    isWordChar c = true :=
  forall_asciiWordChar (by decide) h

theorem isAsciiWordChar_of_isDigit {c : Char} (h : c.isDigit = true) :
    isAsciiWordChar c = true := by
  simp [isAsciiWordChar, Char.isAlphanum, h]

theorem isWordChar_eq_false_of_isMark {c : Char} (h : isMark c = true) :
    isWordChar c = false := by
  have hall : (marks.all fun d => !isWordChar d) = true := by decide
  have hc := List.all_eq_true.1 hall c (List.contains_iff_mem.1 h)
  rwa [Bool.not_eq_true'] at hc

theorem isBlank_eq_false_of_isMark {c : Char} (h : isMark c = true) : isBlank c = false := by
  have hall : (marks.all fun d => !isBlank d) = true := by decide
  have hc := List.all_eq_true.1 hall c (List.contains_iff_mem.1 h)
  rwa [Bool.not_eq_true'] at hc

theorem ne_of_isWordChar {c d : Char} (hc : isWordChar c = true) (hd : isWordChar d = false) :
    c ≠ d := by
  rintro rfl
  rw [hc] at hd
  exact Bool.noConfusion hd

theorem isBlank_eq_false_of_isAsciiWordChar {c : Char} (h : isAsciiWordChar c = true) :
    isBlank c = false := by
  have := forall_asciiWordChar (p := fun c => !isBlank c) (by decide) h
  simpa using this

/-- A code point among spans lies in one of them. -/
theorem Spans.exists_of_contains {spans : Spans} {n : Nat} (h : spans.contains n = true) :
    ∃ s ∈ spans, ∃ k ≤ s.2 - s.1, n = s.1 + k := by
  induction spans with
  | nil => simp [Spans.contains] at h
  | cons s rest ih =>
    rw [Spans.contains] at h
    split at h
    · exact Bool.noConfusion h
    · split at h
      · exact ⟨s, by simp, n - s.1, by omega, by omega⟩
      · obtain ⟨t, ht, hn⟩ := ih h
        exact ⟨t, by simp [ht], hn⟩

theorem isWordChar_eq_false_of_isBlank {c : Char} (h : isBlank c = true) :
    isWordChar c = false := by
  obtain ⟨s, hs, k, hk, hn⟩ := Spans.exists_of_contains h
  have : ∀ s ∈ blankSpans, ∀ k ≤ s.2 - s.1, wordSpans.contains (s.1 + k) = false := by
    decide +kernel
  rw [isWordChar, hn]
  exact this s hs k hk

/-! ## Brackets are no word characters -/

theorem isMark_of_isOpener {c : Char} (h : Bracket.isOpener c = true) : isMark c = true := by
  unfold Bracket.isOpener Bracket.closerOf? at h
  split at h
  all_goals first | decide | exact absurd h (by decide)

theorem isMark_of_isCloser {c : Char} (h : Bracket.isCloser c = true) : isMark c = true := by
  simp only [Bracket.isCloser, Bool.or_eq_true, decide_eq_true_eq] at h
  rcases h with ((rfl | rfl) | rfl) | rfl <;> decide

theorem isOpener_eq_false_of_isWordChar {c : Char} (h : isWordChar c = true) :
    Bracket.isOpener c = false := by
  cases ho : Bracket.isOpener c with
  | false => rfl
  | true => rw [isWordChar_eq_false_of_isMark (isMark_of_isOpener ho)] at h; exact h.symm

theorem isCloser_eq_false_of_isWordChar {c : Char} (h : isWordChar c = true) :
    Bracket.isCloser c = false := by
  cases hc : Bracket.isCloser c with
  | false => rfl
  | true => rw [isWordChar_eq_false_of_isMark (isMark_of_isCloser hc)] at h; exact h.symm

/-- A character that makes no word is in no word. -/
theorem not_mem_of_isWordChar {c : Char} (hc : isWordChar c = false) {cs : List Char}
    (h : ∀ x ∈ cs, isWordChar x = true) : c ∉ cs := by
  intro hm
  rw [h c hm] at hc
  exact Bool.noConfusion hc

/-- Whether the character ends the part in front of it. -/
def isEnd (c : Char) : Bool := [',', ';', '>', ')', ']'].contains c

theorem isMark_of_isEnd {c : Char} (h : isEnd c = true) : isMark c = true := by
  have hall : [',', ';', '>', ')', ']'].all isMark = true := by decide
  exact List.all_eq_true.1 hall c (List.contains_iff_mem.1 h)

/-! ## Words -/

/-- A word of ASCII letters, digits and underscores. -/
structure AsciiWord where
  chars : List Char
  ne_nil : chars ≠ []
  ascii : ∀ c ∈ chars, isAsciiWordChar c = true
  deriving DecidableEq

namespace AsciiWord

/-- The word of a list of characters. -/
def of (cs : List Char) (hne : cs ≠ [] := by decide)
    (h : cs.all isAsciiWordChar = true := by decide) : AsciiWord :=
  ⟨cs, hne, List.all_eq_true.1 h⟩

@[simp] theorem chars_of (cs : List Char) (hne : cs ≠ []) (h : cs.all isAsciiWordChar = true) :
    (of cs hne h).chars = cs := rfl

theorem isWordChar (w : AsciiWord) : ∀ c ∈ w.chars, isWordChar c = true :=
  fun c hc => isWordChar_of_isAsciiWordChar (w.ascii c hc)

theorem not_mem_chars {c : Char} (hc : Text.isWordChar c = false) (w : AsciiWord) : c ∉ w.chars :=
  not_mem_of_isWordChar hc w.isWordChar

/-- The first character of a word and the others. -/
theorem exists_cons (w : AsciiWord) : ∃ c cs, w.chars = c :: cs :=
  List.exists_cons_of_ne_nil w.ne_nil

/-- A text that starts with a word starts with a word character. -/
theorem append_ne_cons (w : AsciiWord) {c : Char} (hc : Text.isWordChar c = false)
    {rest tail : List Char} : w.chars ++ rest ≠ c :: tail := by
  intro h
  obtain ⟨d, ds, hd⟩ := w.exists_cons
  rw [hd] at h
  have := w.isWordChar d (by rw [hd]; exact List.mem_cons_self)
  rw [(List.cons.inj h).1, hc] at this
  exact Bool.noConfusion this

end AsciiWord

/-- Whether a text is made of word characters only. -/
def IsWord (s : String) : Prop := ∀ c ∈ s.toList, isWordChar c = true

theorem isWord_of_all {s : String} (h : s.toList.all isWordChar = true) : IsWord s :=
  List.all_eq_true.1 h

/-! ## Digits -/

theorem decimalValue?_of_isDigit {c : Char} (h : c.isDigit = true) :
    decimalValue? c = some (c.toNat - '0'.toNat) := by
  have := forall_asciiWordChar
    (p := fun c => !c.isDigit || decimalValue? c = some (c.toNat - '0'.toNat)) (by decide +kernel)
    (isAsciiWordChar_of_isDigit h)
  simpa [h] using this

theorem isDigit_of_decimalValue? {c : Char} {v : Nat} (hc : isAsciiWordChar c = true)
    (h : decimalValue? c = some v) : c.isDigit = true := by
  have := forall_asciiWordChar (p := fun c => (decimalValue? c).isNone || c.isDigit)
    (by decide +kernel) hc
  simpa [h] using this

theorem foldlM_decimalValue? {cs : List Char} (h : ∀ c ∈ cs, c.isDigit = true) (n : Nat) :
    cs.foldlM (fun n c => (decimalValue? c).map (10 * n + ·)) n =
      some (Nat.ofDigitChars 10 cs n) := by
  induction cs generalizing n with
  | nil => rw [Nat.ofDigitChars_nil]; rfl
  | cons c cs ih =>
    rw [List.foldlM_cons, decimalValue?_of_isDigit (h c (by simp)), Nat.ofDigitChars_cons]
    exact ih (fun d hd => h d (by simp [hd])) _

/-- Only digits spell a number. -/
theorem isDecimalDigit_of_decimalNumber? {cs : List Char} {n : Nat}
    (h : decimalNumber? cs = some n) : ∀ c ∈ cs, isDecimalDigit c = true := by
  unfold decimalNumber? at h
  generalize 0 = start at h
  induction cs generalizing start with
  | nil => simp
  | cons c cs ih =>
    rw [List.foldlM_cons] at h
    cases hc : decimalValue? c with
    | none => simp [hc] at h
    | some v =>
      rw [hc] at h
      intro d hd
      rcases List.mem_cons.1 hd with rfl | hd
      · rw [isDecimalDigit, hc]; rfl
      · exact ih _ h d hd

/-! ## Numerals -/

/-- A text of ASCII digits that spells a number. -/
structure Numeral where
  digits : List Char
  ne_nil : digits ≠ []
  decimal : ∀ c ∈ digits, c.isDigit = true
  deriving DecidableEq

namespace Numeral

/-- The number that a numeral spells, most significant digit first. -/
def value (n : Numeral) : Nat := Nat.ofDigitChars 10 n.digits 0

/-- The numeral as a word. -/
def word (n : Numeral) : AsciiWord :=
  ⟨n.digits, n.ne_nil, fun c hc => isAsciiWordChar_of_isDigit (n.decimal c hc)⟩

theorem ext {n m : Numeral} (h : n.digits = m.digits) : n = m := by
  cases n
  cases m
  cases h
  rfl

/-- A numeral spells its number. -/
theorem decimalNumber?_digits (n : Numeral) : decimalNumber? n.digits = some n.value :=
  foldlM_decimalValue? n.decimal 0

theorem allDigits_digits (n : Numeral) : allDigits n.digits = true := by
  have hne : n.digits.isEmpty = false := by simpa using n.ne_nil
  rw [allDigits, hne, Bool.not_false, Bool.true_and, List.all_eq_true]
  intro c hc
  rw [isDigit, isDecimalDigit, decimalValue?_of_isDigit (n.decimal c hc)]
  rfl

end Numeral

end ChainTypings.Text
