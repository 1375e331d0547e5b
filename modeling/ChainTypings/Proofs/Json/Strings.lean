import ChainTypings.Json.Dump
import ChainTypings.Json.Reader
import Mathlib.Data.List.Basic

/-!
# Strings and integers read back

What is written for one character is read as its code units, one or two of them
(`units_dumpChar`), and the units of a text join to the text again (`joinUnits_unitsOf`). So a
string is read back whatever characters it holds (`string_dump`), and an integer is read back in
front of anything that no number goes on with (`number?_intChars`).
-/

namespace ChainTypings.Json

open Text

/-! ## Escapes of code units -/

theorem hexValue?_digitChar : ∀ d < 16, hexValue? (Nat.digitChar d) = some d := by decide

theorem hexDigits_one {n : Nat} (h : n < 16) : hexDigits 1 n = [Nat.digitChar n] := by
  rw [hexDigits, Nat.toDigits_of_lt_base h]
  rfl

theorem hexDigits_succ {width : Nat} (hw : 1 ≤ width) (n : Nat) :
    hexDigits (width + 1) n = hexDigits width (n / 16) ++ [Nat.digitChar (n % 16)] := by
  unfold hexDigits
  dsimp only
  by_cases hn : n < 16
  · -- a single digit, with one zero more in front of it
    have hzeros : List.replicate width '0' = List.replicate (width - 1) '0' ++ ['0'] := by
      rw [← List.replicate_succ', Nat.sub_add_cancel hw]
    rw [Nat.toDigits_of_lt_base hn, Nat.div_eq_of_lt hn, Nat.toDigits_zero, Nat.mod_eq_of_lt hn]
    simp only [List.length_singleton, Nat.add_sub_cancel]
    rw [hzeros]
  · rw [Nat.toDigits_of_base_le (by decide) (Nat.le_of_not_lt hn), List.length_append,
      List.length_singleton, Nat.add_sub_add_right, List.append_assoc]

theorem hexDigits_four {u : Nat} (h : u < 0x10000) :
    hexDigits 4 u = [Nat.digitChar (u / 16 / 16 / 16), Nat.digitChar (u / 16 / 16 % 16),
      Nat.digitChar (u / 16 % 16), Nat.digitChar (u % 16)] := by
  rw [hexDigits_succ (by decide), hexDigits_succ (by decide), hexDigits_succ (by decide),
    hexDigits_one (by omega)]
  rfl

/-- The escape of a code unit is read as the unit. -/
theorem units_unitEscape {u : Nat} (h : u < 0x10000) (inside rest : List Char) (c : Char) :
    units inside (unitEscape u ++ c :: rest) = consUnit u (units inside (c :: rest)) := by
  have hunit : unit? (Nat.digitChar (u / 16 / 16 / 16)) (Nat.digitChar (u / 16 / 16 % 16))
      (Nat.digitChar (u / 16 % 16)) (Nat.digitChar (u % 16)) = some u := by
    rw [unit?, hexValue?_digitChar _ (by omega), hexValue?_digitChar _ (by omega),
      hexValue?_digitChar _ (by omega), hexValue?_digitChar _ (by omega)]
    simp only [Option.bind_eq_bind, Option.bind_some]
    congr 1
    omega
  rw [unitEscape, hexDigits_four h]
  simp only [List.cons_append, List.nil_append]
  rw [units.eq_def]
  simp only [hunit]

/-! ## Characters -/

/-- The escapes of one letter, each with the character that it stands for. -/
def shortEscapes : List (Char × Char) :=
  [('"', '"'), ('\\', '\\'), ('n', '\n'), ('r', '\r'), ('t', '\t'), ('f', '\x0c'), ('b', '\x08')]

/-- What is written for a character: itself, an escape of one letter, or one or two code units. -/
inductive Dumped (c : Char) : List Char → Prop
  | itself : c ≠ '"' → c ≠ '\\' → 32 ≤ c.toNat → c.toNat < 127 → Dumped c [c]
  | short {e} : (e, c) ∈ shortEscapes → Dumped c ['\\', e]
  | unit : c.toNat < 0x10000 → Dumped c (unitEscape c.toNat)
  | pair : ¬c.toNat < 0x10000 → Dumped c (unitEscape (0xd800 + (c.toNat - 0x10000) / 1024) ++
      unitEscape (0xdc00 + (c.toNat - 0x10000) % 1024))

theorem dumped (c : Char) : Dumped c (dumpChar c) := by
  unfold dumpChar
  -- the seven escapes of one letter come first, then the character itself, then its units
  split
  · next h => subst h; exact .short (by decide)
  split
  · next h => subst h; exact .short (by decide)
  split
  · next h => subst h; exact .short (by decide)
  split
  · next h => subst h; exact .short (by decide)
  split
  · next h => subst h; exact .short (by decide)
  split
  · next h => subst h; exact .short (by decide)
  split
  · next h => subst h; exact .short (by decide)
  split
  · next hq hb _ _ _ _ _ hc => exact .itself hq hb hc.1 hc.2
  split
  · next hc => exact .unit hc
  · next hc => exact .pair hc

/-- The code units of a character. -/
def unitsOf (c : Char) : List Nat :=
  if c.toNat < 0x10000 then [c.toNat]
  else [0xd800 + (c.toNat - 0x10000) / 1024, 0xdc00 + (c.toNat - 0x10000) % 1024]

/-- Puts code units in front of what a step read. -/
def consUnits (us : List Nat) (step : Step (List Nat)) : Step (List Nat) := us.foldr consUnit step

theorem toNat_lt (c : Char) : c.toNat < 0x110000 := by
  rcases c.valid with h | ⟨_, h⟩
  · exact Nat.lt_trans h (by decide)
  · exact h

/-- A character that stands for itself is read as its unit. -/
theorem units_plain {c : Char} (hq : c ≠ '"') (hb : c ≠ '\\') (hc : 32 ≤ c.toNat)
    (inside rest : List Char) :
    units inside (c :: rest) = consUnit c.toNat (units inside rest) := by
  rw [units.eq_def]
  split
  · next h => exact absurd h (by simp)
  · next h => exact absurd (List.cons.inj h).1 hq
  · next h => exact absurd (List.cons.inj h).1 hb
  · next h => exact absurd (List.cons.inj h).1 hb
  · next h => exact absurd (List.cons.inj h).1 hb
  · next h => exact absurd (List.cons.inj h).1 hb
  · next h =>
    obtain ⟨rfl, rfl⟩ := List.cons.inj h
    rw [if_neg (by omega)]

/-- An escape of one letter is read as the unit of the character that it stands for. -/
theorem units_short {e c : Char} (h : (e, c) ∈ shortEscapes) (inside rest : List Char) :
    units inside ('\\' :: e :: rest) = consUnit c.toNat (units inside rest) := by
  simp only [shortEscapes, List.mem_cons, Prod.mk.injEq, List.not_mem_nil, or_false] at h
  rcases h with ⟨rfl, rfl⟩ | ⟨rfl, rfl⟩ | ⟨rfl, rfl⟩ | ⟨rfl, rfl⟩ | ⟨rfl, rfl⟩ | ⟨rfl, rfl⟩ |
    ⟨rfl, rfl⟩ <;> rfl

/-- What is written for a character is read as its units. -/
theorem units_dumpChar (c d : Char) (inside rest : List Char) :
    units inside (dumpChar c ++ d :: rest) =
      consUnits (unitsOf c) (units inside (d :: rest)) := by
  have h := dumped c
  generalize dumpChar c = ds at h ⊢
  cases h with
  | itself hq hb hc hc' =>
    rw [unitsOf, if_pos (by omega)]
    exact units_plain hq hb hc inside (d :: rest)
  | short h =>
    have hlow : ∀ p ∈ shortEscapes, p.2.toNat < 0x10000 := by decide
    rw [unitsOf, if_pos (hlow _ h)]
    exact units_short h inside (d :: rest)
  | unit hc =>
    rw [unitsOf, if_pos hc]
    exact units_unitEscape hc inside rest d
  | pair hc =>
    -- the second escape starts with a backslash, and in front of that the first is read
    have hlt := toNat_lt c
    have hcons : ∃ e tail,
        unitEscape (0xdc00 + (c.toNat - 0x10000) % 1024) ++ d :: rest = e :: tail := ⟨_, _, rfl⟩
    obtain ⟨e, tail, he⟩ := hcons
    rw [unitsOf, if_neg hc, List.append_assoc, he, units_unitEscape (by omega), ← he,
      units_unitEscape (by omega)]
    rfl

theorem consUnits_ok (us vs : List Nat) (rest : List Char) :
    consUnits us (.ok (vs, rest)) = .ok (us ++ vs, rest) := by
  induction us with
  | nil => rfl
  | cons u us ih =>
    show consUnit u (consUnits us (.ok (vs, rest))) = _
    rw [ih]
    rfl

/-- The text of a string is read as its units, up to the closing quote. -/
theorem units_flatMap (cs inside rest : List Char) :
    units inside (cs.flatMap dumpChar ++ '"' :: rest) = .ok (cs.flatMap unitsOf, rest) := by
  induction cs with
  | nil => rw [units.eq_def]; rfl
  | cons c cs ih =>
    -- the escape of one character is read in front of a character, be it only the closing quote
    have hcons : ∃ d tail, cs.flatMap dumpChar ++ '"' :: rest = d :: tail := by
      cases h : cs.flatMap dumpChar with
      | nil => exact ⟨_, _, rfl⟩
      | cons d tail => exact ⟨d, tail ++ '"' :: rest, rfl⟩
    obtain ⟨d, tail, hd⟩ := hcons
    rw [List.flatMap_cons, List.append_assoc, hd, units_dumpChar, ← hd, ih, consUnits_ok,
      List.flatMap_cons]

/-! ## Characters of units -/

theorem joinUnits_cons {u : Nat} (h : u < 0xd800 ∨ 0xdfff < u) (us : List Nat) :
    joinUnits (u :: us) = Char.ofNat u :: joinUnits us := by
  cases us with
  | nil =>
    rw [joinUnits.eq_def]
    simp only [if_pos h, joinUnits]
  | cons v us =>
    -- whatever comes behind, a unit that is no surrogate starts no pair
    have hne : ¬(0xd800 ≤ u ∧ u ≤ 0xdbff ∧ 0xdc00 ≤ v ∧ v ≤ 0xdfff) := by omega
    rw [joinUnits, if_neg hne, if_pos h]

theorem joinUnits_pair {n : Nat} (h : n < 0x100000) (us : List Nat) :
    joinUnits ((0xd800 + n / 1024) :: (0xdc00 + n % 1024) :: us) =
      Char.ofNat (0x10000 + n) :: joinUnits us := by
  have hpair : 0xd800 ≤ 0xd800 + n / 1024 ∧ 0xd800 + n / 1024 ≤ 0xdbff ∧
      0xdc00 ≤ 0xdc00 + n % 1024 ∧ 0xdc00 + n % 1024 ≤ 0xdfff := by omega
  have hn : 0x10000 + 1024 * (0xd800 + n / 1024 - 0xd800) + (0xdc00 + n % 1024 - 0xdc00) =
      0x10000 + n := by omega
  rw [joinUnits, if_pos hpair, hn]

/-- A character is no surrogate. -/
theorem toNat_not_surrogate (c : Char) : c.toNat < 0xd800 ∨ 0xdfff < c.toNat := by
  rcases c.valid with h | ⟨h, _⟩
  · exact .inl h
  · exact .inr h

/-- The units of a text join to the text. -/
theorem joinUnits_unitsOf (cs : List Char) : joinUnits (cs.flatMap unitsOf) = cs := by
  induction cs with
  | nil => rfl
  | cons c cs ih =>
    rw [List.flatMap_cons]
    by_cases hc : c.toNat < 0x10000
    · rw [unitsOf, if_pos hc, List.singleton_append, joinUnits_cons (toNat_not_surrogate c), ih,
        Char.ofNat_toNat]
    · have hlt := toNat_lt c
      rw [unitsOf, if_neg hc, List.cons_append, List.singleton_append,
        joinUnits_pair (by omega), ih, Nat.add_sub_cancel' (Nat.le_of_not_lt hc),
        Char.ofNat_toNat]

/-- A string is read back. -/
theorem string_dump (s : String) (rest : List Char) :
    string (s.toList.flatMap dumpChar ++ '"' :: rest) = .ok (s, rest) := by
  rw [string, units_flatMap]
  simp only [joinUnits_unitsOf, String.ofList_toList]

/-! ## Integers -/

theorem digitsValue_toDigits (n : Nat) : digitsValue (Nat.toDigits 10 n) = n :=
  Nat.ofDigitChars_ten_toDigits

theorem isDigit_of_mem_decimal {n : Nat} : ∀ c ∈ Nat.toDigits 10 n, c.isDigit = true :=
  fun _ hc => Nat.isDigit_of_mem_toDigits (by decide) (by decide) hc

/-- Only the digits of zero start with a zero. -/
theorem head_toDigits_ne {n : Nat} (h : 0 < n) : (Nat.toDigits 10 n).head? ≠ some '0' := by
  -- the first digit of a number is the first digit of its tenth, down to a single digit
  induction n using Nat.strongRecOn with
  | ind n ih =>
    by_cases hn : n < 10
    · have hdigit : ∀ d < 10, 0 < d → Nat.digitChar d ≠ '0' := by decide
      rw [Nat.toDigits_of_lt_base hn, List.head?_singleton]
      intro he
      exact hdigit n hn h (Option.some.inj he)
    · have hdiv := ih (n / 10) (by omega) (by omega)
      rw [Nat.toDigits_of_base_le (by decide) (Nat.le_of_not_lt hn),
        List.head?_append_of_ne_nil _ Nat.toDigits_ne_nil]
      exact hdiv

/-- What no number goes on with: no digit, no point and no mark of an exponent. -/
def EndsNumber (rest : List Char) : Prop :=
  ∀ c ∈ rest.head?, c.isDigit = false ∧ c ≠ '.' ∧ c ≠ 'e' ∧ c ≠ 'E'

theorem digits_append {ds rest : List Char} (hd : ∀ c ∈ ds, c.isDigit = true)
    (hr : EndsNumber rest) : digits (ds ++ rest) = (ds, rest) := by
  have htake : rest.takeWhile Char.isDigit = [] := by
    cases rest with
    | nil => rfl
    | cons c rest => exact List.takeWhile_cons_of_neg (by rw [(hr c rfl).1]; decide)
  have hdrop : rest.dropWhile Char.isDigit = rest := by
    cases rest with
    | nil => rfl
    | cons c rest => exact List.dropWhile_cons_of_neg (by rw [(hr c rfl).1]; decide)
  rw [digits, List.takeWhile_append_of_pos hd, List.dropWhile_append_of_pos hd, htake, hdrop,
    List.append_nil]

theorem whole?_toDigits (n : Nat) {rest : List Char} (h : EndsNumber rest) :
    whole? (Nat.toDigits 10 n ++ rest) = some (Nat.toDigits 10 n, rest) := by
  by_cases hn : n = 0
  · subst hn
    rw [Nat.toDigits_zero]
    rfl
  · have hne : (Nat.toDigits 10 n).isEmpty = false :=
      List.isEmpty_eq_false_iff.2 Nat.toDigits_ne_nil
    unfold whole?
    split
    · -- a zero would stand in front
      next more heq =>
      have hhead := head_toDigits_ne (Nat.pos_of_ne_zero hn)
      have happend : (Nat.toDigits 10 n ++ rest).head? = (Nat.toDigits 10 n).head? :=
        List.head?_append_of_ne_nil _ Nat.toDigits_ne_nil
      rw [← happend, heq] at hhead
      exact absurd rfl hhead
    · rw [digits_append isDigit_of_mem_decimal h]
      simp only [hne]
      rfl

theorem fraction_of_ends {rest : List Char} (h : EndsNumber rest) : fraction rest = ([], rest) := by
  unfold fraction
  split
  · exact absurd rfl (h '.' rfl).2.1
  · rfl

theorem exponent?_of_ends {rest : List Char} (h : EndsNumber rest) : exponent? rest = none := by
  unfold exponent?
  split
  · next e more =>
    obtain ⟨-, -, he, hE⟩ := h e rfl
    rw [if_neg (by simp [he, hE])]
  · rfl

/-- An integer is read back in front of anything that no number goes on with. -/
theorem number?_intChars (n : Int) {rest : List Char} (h : EndsNumber rest) :
    number? (intChars n ++ rest) = some (.int n, rest) := by
  unfold number? intChars
  by_cases hn : n < 0
  · have habs : -(n.natAbs : Int) = n := by omega
    rw [if_pos hn, List.cons_append]
    simp only [minus, whole?_toDigits n.natAbs h, fraction_of_ends h, exponent?_of_ends h,
      digitsValue_toDigits, if_true, habs]
  · have habs : (n.natAbs : Int) = n := by omega
    have hminus : minus (Nat.toDigits 10 n.natAbs ++ rest) =
        (false, Nat.toDigits 10 n.natAbs ++ rest) := by
      obtain ⟨d, ds, hd⟩ := List.exists_cons_of_ne_nil (l := Nat.toDigits 10 n.natAbs)
        Nat.toDigits_ne_nil
      have hdigit := isDigit_of_mem_decimal d (by rw [hd]; exact List.mem_cons_self)
      rw [hd, List.cons_append]
      unfold minus
      split
      · next heq =>
        rw [(List.cons.inj heq).1] at hdigit
        exact absurd hdigit (by decide)
      · rfl
    rw [if_neg hn, hminus]
    simp only [whole?_toDigits n.natAbs h, fraction_of_ends h, exponent?_of_ends h,
      digitsValue_toDigits, habs]
    rfl

end ChainTypings.Json
