import ChainTypings.Json.Display
import ChainTypings.Text.Weight

/-!
# The weight of a value

A value weighs no less than what is written for it, as JSON (`weight_dumpChars`) or in a message
(`weight_bareChars`): its brackets and its texts weigh what they do in the value, numbers and words
next to nothing, and an escape as much as the character that it stands for.
-/

namespace ChainTypings.Json

open Text

mutual

/-- The weight of a value: a list or an object weighs one more than what it holds. -/
def weigh : Json → Nat
  | .null => 1
  | .bool b => if b then 1 else 0
  | .int _ => 0
  | .float _ => 0
  | .str s => weight s.toList
  | .arr items => 1 + weighItems items
  | .obj fields => 1 + weighFields fields

/-- The weight of the items of a list. -/
def weighItems : List Json → Nat
  | [] => 0
  | v :: rest => weigh v + weighItems rest

/-- The weight of the fields of an object. -/
def weighFields : List (String × Json) → Nat
  | [] => 0
  | (k, v) :: rest => weight k.toList + weigh v + weighFields rest

end

/-! ## Text without weight -/

/-- A text of characters without weight. -/
abbrev Weightless (cs : List Char) : Prop := weight cs = 0

theorem weightless_append {cs ds : List Char} (hc : Weightless cs) (hd : Weightless ds) :
    Weightless (cs ++ ds) := by
  simp only [Weightless, weight_append] at *
  omega

theorem weightless_of_forall {cs : List Char} (h : ∀ c ∈ cs, charWeight c = 0) :
    Weightless cs := by
  induction cs with
  | nil => rfl
  | cons c cs ih =>
    rw [Weightless, weight_cons, h c (by simp), Nat.zero_add]
    exact ih fun x hx => h x (by simp [hx])

theorem weightless_of_sublist {cs ds : List Char} (h : cs.Sublist ds) (hd : Weightless ds) :
    Weightless cs :=
  Nat.le_zero.1 (Nat.le_trans (weight_le_of_sublist h) (Nat.le_of_eq hd))

theorem weightless_replicate {c : Char} (h : charWeight c = 0) (n : Nat) :
    Weightless (List.replicate n c) :=
  weightless_of_forall fun _ hx => (List.eq_of_mem_replicate hx) ▸ h

theorem charWeight_digitChar : ∀ d < 16, charWeight (Nat.digitChar d) = 0 := by decide

theorem weightless_toDigitsCore {base : Nat} (h0 : 0 < base) (hb : base ≤ 16) (fuel n : Nat)
    (ds : List Char) (h : Weightless ds) : Weightless (Nat.toDigitsCore base fuel n ds) := by
  induction fuel generalizing n ds with
  | zero => simpa [Nat.toDigitsCore] using h
  | succ fuel ih =>
    have hd : charWeight (Nat.digitChar (n % base)) = 0 :=
      charWeight_digitChar _ (Nat.lt_of_lt_of_le (Nat.mod_lt _ h0) hb)
    have hcons : Weightless (Nat.digitChar (n % base) :: ds) := by
      rw [Weightless, weight_cons, hd, Nat.zero_add]
      exact h
    simp only [Nat.toDigitsCore]
    split
    · exact hcons
    · exact ih _ _ hcons

theorem weightless_toDigits {base : Nat} (h0 : 0 < base) (hb : base ≤ 16) (n : Nat) :
    Weightless (Nat.toDigits base n) :=
  weightless_toDigitsCore h0 hb _ _ _ rfl

theorem weightless_decimal (n : Nat) : Weightless (Nat.toDigits 10 n) :=
  weightless_toDigits (by decide) (by decide) n

theorem weightless_hexDigits (width n : Nat) : Weightless (hexDigits width n) :=
  weightless_append (weightless_replicate (by decide) _)
    (weightless_toDigits (by decide) (by decide) n)

theorem weightless_cons {c : Char} {cs : List Char} (hc : charWeight c = 0) (h : Weightless cs) :
    Weightless (c :: cs) := by
  rw [Weightless, weight_cons, hc, Nat.zero_add]
  exact h

theorem weightless_intChars (n : Int) : Weightless (intChars n) := by
  unfold intChars
  split
  · exact weightless_cons (by decide) (weightless_decimal _)
  · exact weightless_decimal _

theorem weightless_write (l : Binary64.Layout) (digits : Nat) (k : Int) :
    Weightless (l.write digits k) := by
  have hds := weightless_decimal digits
  unfold Binary64.Layout.write
  dsimp only
  split
  · split
    · exact weightless_append
        (weightless_append hds (weightless_replicate (by decide) _)) (by decide)
    · split
      · exact weightless_append (weightless_of_sublist (List.take_sublist _ _) hds)
          (weightless_cons (by decide) (weightless_of_sublist (List.drop_sublist _ _) hds))
      · exact weightless_append (weightless_cons (by decide)
          (weightless_cons (by decide) (weightless_replicate (by decide) _))) hds
  · refine weightless_append (weightless_append (weightless_append
      (weightless_of_sublist (List.take_sublist _ _) hds) ?_)
      (weightless_cons (by decide) (weightless_cons ?_
        (weightless_replicate (by decide) _)))) (weightless_decimal _)
    · split
      · rfl
      · exact weightless_cons (by decide) (weightless_of_sublist (List.drop_sublist _ _) hds)
    · split <;> decide

theorem weightless_text (l : Binary64.Layout) {nan infinity : List Char} (hn : Weightless nan)
    (hi : Weightless infinity) (x : Binary64) : Weightless (x.text l nan infinity) := by
  cases x with
  | nan => exact hn
  | infinite negative =>
    cases negative
    · exact hi
    · exact weightless_cons (by decide) hi
  | finite negative m e =>
    have hs : Weightless (if m = 0 then ['0', '.', '0']
        else l.write (Binary64.shortest m e).1 (Binary64.shortest m e).2) := by
      split
      · decide
      · exact weightless_write _ _ _
    cases negative
    · exact hs
    · exact weightless_cons (by decide) hs

/-! ## Writing -/

theorem weight_unitEscape (u : Nat) : weight (unitEscape u) = 1 := by
  have h : weight (hexDigits 4 u) = 0 := weightless_hexDigits 4 u
  have h1 : charWeight '\\' = 0 := by decide
  have h2 : charWeight 'u' = 1 := by decide
  simp [unitEscape, h, h1, h2]

theorem one_le_charWeight {c : Char} (hp : ¬(32 ≤ c.toNat ∧ c.toNat < 127))
    (he : isShortEscape c = false) : 1 ≤ charWeight c := by
  unfold charWeight
  split
  · exact Nat.le_refl _
  · split
    · next h => simp [he, hp] at h
    · split <;> omega

theorem weight_dumpChar (c : Char) : weight (dumpChar c) ≤ charWeight c := by
  unfold dumpChar
  split
  · next h => subst h; decide
  split
  · next h => subst h; decide
  split
  · next h => subst h; decide
  split
  · next h => subst h; decide
  split
  · next h => subst h; decide
  split
  · next h => subst h; decide
  split
  · next h => subst h; decide
  next h1 h2 hn hr ht hf hb =>
    have he : isShortEscape c = false := by simp [isShortEscape, hn, hr, ht, hf, hb]
    split
    · simp
    · next hp =>
      split
      · rw [weight_unitEscape]
        exact one_le_charWeight hp he
      · next hbig =>
        simp only [weight_append, weight_unitEscape]
        have h16 : charWeight c = 2 := by
          unfold charWeight
          rw [if_neg, if_neg, if_neg hbig]
          · simp [he]; omega
          · simp only [Bool.or_eq_true, decide_eq_true_eq, not_or]
            refine ⟨⟨⟨⟨?_, ?_⟩, ?_⟩, ?_⟩, ?_⟩ <;> rintro rfl <;> exact hbig (by decide)
        omega

theorem weight_flatMap {f : Char → List Char} (h : ∀ c, weight (f c) ≤ charWeight c)
    (cs : List Char) : weight (cs.flatMap f) ≤ weight cs := by
  induction cs with
  | nil => exact Nat.le_refl _
  | cons c cs ih =>
    have := h c
    simp only [List.flatMap_cons, weight_append, weight_cons]
    omega

theorem weight_dumpString (s : String) : weight (dumpString s) ≤ weight s.toList := by
  have h := weight_flatMap weight_dumpChar s.toList
  have hq : charWeight '"' = 0 := by decide
  simp only [dumpString, weight_append, weight_cons, weight_nil, hq]
  omega

theorem weight_quotedChar (quote c : Char) :
    weight (quotedChar quote c) ≤ charWeight c := by
  have hb : charWeight '\\' = 0 := by decide
  unfold quotedChar
  split
  · simp [hb]
  split
  · next h => subst h; decide
  split
  · next h => subst h; decide
  split
  · next h => subst h; decide
  split
  · simp
  split
  · have h : weight (hexDigits 2 c.toNat) = 0 := weightless_hexDigits _ _
    have hx : charWeight 'x' = 0 := by decide
    simp [hb, h, hx]
  split
  · next hlow _ =>
    have h : weight (hexDigits 4 c.toNat) = 0 := weightless_hexDigits _ _
    have hu : charWeight 'u' = 1 := by decide
    have he : isShortEscape c = false := by
      simp only [isShortEscape, Bool.or_eq_false_iff, decide_eq_false_iff_not]
      refine ⟨⟨⟨⟨?_, ?_⟩, ?_⟩, ?_⟩, ?_⟩ <;> rintro rfl <;> exact hlow (by decide)
    have := one_le_charWeight (c := c) (by omega) he
    simp only [weight_cons, hb, hu, h]
    omega
  · have h : weight (hexDigits 8 c.toNat) = 0 := weightless_hexDigits _ _
    have hU : charWeight 'U' = 0 := by decide
    simp [hb, h, hU]

theorem charWeight_quoteFor (cs : List Char) : charWeight (quoteFor cs) = 0 := by
  unfold quoteFor
  split <;> decide

theorem weight_quoted (cs : List Char) : weight (quoted cs) ≤ weight cs := by
  have hq := charWeight_quoteFor cs
  have h := weight_flatMap (weight_quotedChar (quoteFor cs)) cs
  simp only [quoted, List.cons_append, weight_append, weight_cons, weight_nil, hq]
  omega

theorem charWeight_marks :
    charWeight '[' = 1 ∧ charWeight ']' = 0 ∧ charWeight '{' = 1 ∧ charWeight '}' = 0 ∧
      charWeight ',' = 0 ∧ charWeight ':' = 0 ∧ charWeight ' ' = 0 ∧ charWeight '"' = 0 := by
  decide

mutual

theorem weight_dumpChars : (v : Json) → weight (dumpChars v) ≤ weigh v
  | .null => by decide
  | .bool b => by cases b <;> decide
  | .int n => Nat.le_of_eq (weightless_intChars n)
  | .float x => Nat.le_of_eq (weightless_text _ (by decide) (by decide) x)
  | .str s => weight_dumpString s
  | .arr items => by
    have h := weight_dumpItems items
    have hm := charWeight_marks
    simp only [dumpChars, weigh, List.cons_append, weight_append, weight_cons, weight_nil]
    omega
  | .obj fields => by
    have h := weight_dumpFields fields
    have hm := charWeight_marks
    simp only [dumpChars, weigh, List.cons_append, weight_append, weight_cons, weight_nil]
    omega

theorem weight_dumpItems : (vs : List Json) → weight (dumpItems vs) ≤ weighItems vs
  | [] => Nat.le_refl _
  | [v] => by
    have h := weight_dumpChars v
    simp only [dumpItems, weighItems]
    omega
  | v :: w :: rest => by
    have h := weight_dumpChars v
    have h' := weight_dumpItems (w :: rest)
    have hm := charWeight_marks
    rw [dumpItems, weighItems]
    · simp only [weight_append, weight_cons]
      omega
    · simp

theorem weight_dumpFields : (fs : List (String × Json)) → weight (dumpFields fs) ≤ weighFields fs
  | [] => Nat.le_refl _
  | [(k, v)] => by
    have hk := weight_dumpString k
    have h := weight_dumpChars v
    have hm := charWeight_marks
    simp only [dumpFields, weighFields, weight_append, weight_cons]
    omega
  | (k, v) :: f :: rest => by
    have hk := weight_dumpString k
    have h := weight_dumpChars v
    have h' := weight_dumpFields (f :: rest)
    have hm := charWeight_marks
    rw [dumpFields, weighFields]
    · simp only [List.append_assoc, List.cons_append, weight_append, weight_cons]
      omega
    · simp

end

mutual

theorem weight_showChars : (v : Json) → weight (showChars v) ≤ weigh v
  | .null => by decide
  | .bool b => by cases b <;> decide
  | .int n => Nat.le_of_eq (weightless_intChars n)
  | .float x => Nat.le_of_eq (weightless_text _ (by decide) (by decide) x)
  | .str s => weight_quoted s.toList
  | .arr items => by
    have h := weight_showItems items
    have hm := charWeight_marks
    simp only [showChars, weigh, List.cons_append, weight_append, weight_cons, weight_nil]
    omega
  | .obj fields => by
    have h := weight_showFields fields
    have hm := charWeight_marks
    simp only [showChars, weigh, List.cons_append, weight_append, weight_cons, weight_nil]
    omega

theorem weight_showItems : (vs : List Json) → weight (showItems vs) ≤ weighItems vs
  | [] => Nat.le_refl _
  | [v] => by
    have h := weight_showChars v
    simp only [showItems, weighItems]
    omega
  | v :: w :: rest => by
    have h := weight_showChars v
    have h' := weight_showItems (w :: rest)
    have hm := charWeight_marks
    rw [showItems, weighItems]
    · simp only [weight_append, weight_cons]
      omega
    · simp

theorem weight_showFields : (fs : List (String × Json)) → weight (showFields fs) ≤ weighFields fs
  | [] => Nat.le_refl _
  | [(k, v)] => by
    have hk := weight_quoted k.toList
    have h := weight_showChars v
    have hm := charWeight_marks
    simp only [showFields, weighFields, weight_append, weight_cons]
    omega
  | (k, v) :: f :: rest => by
    have hk := weight_quoted k.toList
    have h := weight_showChars v
    have h' := weight_showFields (f :: rest)
    have hm := charWeight_marks
    rw [showFields, weighFields]
    · simp only [List.append_assoc, List.cons_append, weight_append, weight_cons]
      omega
    · simp

end

/-- A value that stands for itself is written with no more weight than it has. -/
theorem weight_bareChars (v : Json) : weight (bareChars v) ≤ weigh v := by
  unfold bareChars
  split
  · exact Nat.le_refl _
  · exact weight_showChars _

end ChainTypings.Json
