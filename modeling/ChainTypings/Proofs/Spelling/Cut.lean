import ChainTypings.Proofs.Text.AsciiWord
import ChainTypings.Spelling.Alias
import ChainTypings.Spelling.Decoration

/-!
# Cutting a text where no piece can lie

A rule works on the two sides of a character apart if no piece of the rule can hold the character:
`Rule.applyFrom_append_of_cuts`. Brackets, commas and semicolons cut the path rule, the reference
rule and the renaming of texts, so these rules go through a type text word by word.

A rule that recognises nothing anywhere leaves a text as it is (`Rule.applyFrom_eq_self`), and so
does a rule whose pieces begin with one character where that character is not there
(`Rule.BeginsWith.apply_append`).
-/

namespace ChainTypings.Text

/-! ## Readers in front of a character they do not read -/

theorem dropWhile_append_cons {p : Char → Bool} {c : Char} (hc : p c = false)
    (xs ys : List Char) : (xs ++ c :: ys).dropWhile p = xs.dropWhile p ++ c :: ys := by
  induction xs with
  | nil => simp [hc]
  | cons x xs ih =>
    by_cases hx : p x = true
    · simp [hx, ih]
    · simp [hx]

theorem takeWhile_append_cons {p : Char → Bool} {c : Char} (hc : p c = false)
    (xs ys : List Char) : (xs ++ c :: ys).takeWhile p = xs.takeWhile p := by
  induction xs with
  | nil => simp [hc]
  | cons x xs ih =>
    by_cases hx : p x = true
    · simp [hx, ih]
    · simp [hx]

theorem after?_append_cons {piece : List Char} {c : Char} (hc : c ∉ piece) (xs ys : List Char) :
    after? piece (xs ++ c :: ys) = (after? piece xs).map (· ++ c :: ys) := by
  induction piece generalizing xs with
  | nil => rfl
  | cons p piece ih =>
    simp only [List.mem_cons, not_or] at hc
    cases xs with
    | nil => simp [after?, Ne.symm hc.1]
    | cons x xs =>
      by_cases hx : p = x
      · simpa [after?, hx] using ih hc.2 xs
      · simp [after?, hx]

theorem afterSome?_append_cons {p : Char → Bool} {c : Char} (hc : p c = false)
    (xs ys : List Char) : afterSome? p (xs ++ c :: ys) = (afterSome? p xs).map (· ++ c :: ys) := by
  cases xs with
  | nil => simp [afterSome?, hc]
  | cons x xs =>
    by_cases hx : p x = true
    · simp [afterSome?, hx, dropWhile_append_cons hc]
    · simp [afterSome?, hx]

/-- A run of a class of characters is passed up to the character behind it. -/
theorem afterSome?_run {p : Char → Bool} {xs : List Char} (hne : xs ≠ [])
    (hx : ∀ x ∈ xs, p x = true) {c : Char} (hc : p c = false) (rest : List Char) :
    afterSome? p (xs ++ c :: rest) = some (c :: rest) := by
  obtain ⟨x, xs, rfl⟩ := List.exists_cons_of_ne_nil hne
  simp only [List.mem_cons, forall_eq_or_imp] at hx
  rw [List.cons_append, afterSome?, if_pos hx.1, List.dropWhile_append_of_pos hx.2,
    List.dropWhile_cons_of_neg (by simp [hc])]

/-- The run of a class of characters in front of a text is determined by the text. -/
theorem append_cons_inj {p : Char → Bool} {xs ys r s : List Char} {c d : Char}
    (hx : ∀ x ∈ xs, p x = true) (hy : ∀ y ∈ ys, p y = true) (hc : p c = false)
    (hd : p d = false) (h : xs ++ c :: r = ys ++ d :: s) : xs = ys ∧ c = d ∧ r = s := by
  have h₁ := congrArg (List.takeWhile p) h
  have h₂ := congrArg (List.dropWhile p) h
  rw [List.takeWhile_append_of_pos hx, List.takeWhile_append_of_pos hy,
    List.takeWhile_cons_of_neg (by simp [hc]), List.takeWhile_cons_of_neg (by simp [hd]),
    List.append_nil, List.append_nil] at h₁
  rw [List.dropWhile_append_of_pos hx, List.dropWhile_append_of_pos hy,
    List.dropWhile_cons_of_neg (by simp [hc]), List.dropWhile_cons_of_neg (by simp [hd])] at h₂
  exact ⟨h₁, List.cons.inj h₂⟩

end ChainTypings.Text

namespace ChainTypings.Spelling

open Text

namespace Rule

variable {r : Rule} {c : Char}

/-- No piece of the rule holds the character. -/
structure Cuts (r : Rule) (c : Char) : Prop where
  gap : isWordChar c = false
  first : ∀ inWord cs, r.find? inWord (c :: cs) = none
  later : ∀ inWord x xs ys, r.find? inWord (x :: xs ++ c :: ys) =
    (r.find? inWord (x :: xs)).map fun (new, rest) => (new, rest ++ c :: ys)

theorem applyFrom_append_of_cuts (h : r.Cuts c) (inWord : Bool) (xs ys : List Char) :
    r.applyFrom inWord (xs ++ c :: ys) = r.applyFrom inWord xs ++ c :: r.apply ys := by
  refine apply_cases (r := r)
    (P := fun inWord xs => r.applyFrom inWord (xs ++ c :: ys) =
      r.applyFrom inWord xs ++ c :: r.apply ys) ?_ ?_ ?_ inWord xs
  · intro inWord
    rw [List.nil_append, applyFrom_of_none (h.first _ _), applyFrom_nil, h.gap]
    rfl
  · -- a piece is found: it lies in front of the character, so it is found with the rest behind
    intro inWord cs new rest hf ih
    cases cs with
    | nil => simp [find?_nil] at hf
    | cons x xs =>
      have hf' : r.find? inWord (x :: xs ++ c :: ys) = some (new, rest ++ c :: ys) := by
        rw [h.later, hf]
        rfl
      rw [applyFrom_of_some hf', applyFrom_of_some hf, ih, List.append_assoc]
  · -- no piece starts here, and none that would reach over the character
    intro inWord x xs hf ih
    have hf' : r.find? inWord (x :: (xs ++ c :: ys)) = none := by
      rw [← List.cons_append, h.later, hf]
      rfl
    rw [List.cons_append, applyFrom_of_none hf', applyFrom_of_none hf, ih, List.cons_append]

theorem applyFrom_eq_self {cs : List Char}
    (h : ∀ inWord ds, ds <:+ cs → r.find? inWord ds = none) (inWord : Bool) :
    r.applyFrom inWord cs = cs := by
  induction cs generalizing inWord with
  | nil => exact applyFrom_nil r inWord
  | cons c cs ih =>
    rw [applyFrom_of_none (h inWord _ List.suffix_rfl),
      ih fun inWord ds hd => h inWord ds (hd.trans (List.suffix_cons c cs))]

/-- A word goes on to its end if no piece starts inside a word. -/
theorem applyFrom_true_append (h : ∀ cs, r.find? true cs = none) {w : List Char}
    (hw : ∀ c ∈ w, isWordChar c = true) (rest : List Char) :
    r.applyFrom true (w ++ rest) = w ++ r.applyFrom true rest := by
  induction w with
  | nil => rfl
  | cons c w ih =>
    simp only [List.mem_cons, forall_eq_or_imp] at hw
    rw [List.cons_append, applyFrom_of_none (h _), hw.1, ih hw.2, List.cons_append]

/-- A word at which no piece starts is kept. -/
theorem applyFrom_false_append (h : ∀ cs, r.find? true cs = none) (w : AsciiWord)
    {rest : List Char} (hf : r.find? false (w.chars ++ rest) = none) :
    r.applyFrom false (w.chars ++ rest) = w.chars ++ r.applyFrom true rest := by
  obtain ⟨c, cs, hc⟩ := w.exists_cons
  have hw := w.isWordChar
  rw [hc] at hf hw ⊢
  simp only [List.mem_cons, forall_eq_or_imp] at hw
  rw [List.cons_append] at hf ⊢
  rw [applyFrom_of_none hf, hw.1, applyFrom_true_append h hw.2, List.cons_append]

/-- Every piece of the rule begins with the character, whether or not inside a word. -/
structure BeginsWith (r : Rule) (c : Char) : Prop where
  first : ∀ {inWord d cs}, d ≠ c → r.find? inWord (d :: cs) = none
  anywhere : ∀ inWord cs, r.find? inWord cs = r.find? false cs

namespace BeginsWith

variable (h : r.BeginsWith c)

include h

theorem applyFrom_eq (inWord : Bool) (cs : List Char) : r.applyFrom inWord cs = r.apply cs := by
  have hany := h.anywhere inWord cs
  cases hf : r.find? false cs with
  | some p => rw [apply, applyFrom_of_some hf, applyFrom_of_some (hany.trans hf)]
  | none =>
    cases cs with
    | nil => rw [applyFrom_nil, apply, applyFrom_nil]
    | cons d cs => rw [apply, applyFrom_of_none hf, applyFrom_of_none (hany.trans hf)]

theorem apply_of_none {d : Char} {cs : List Char} (hf : r.find? false (d :: cs) = none) :
    r.apply (d :: cs) = d :: r.apply cs := by
  rw [apply, applyFrom_of_none hf, h.applyFrom_eq]

theorem apply_cons {d : Char} (hd : d ≠ c) (cs : List Char) :
    r.apply (d :: cs) = d :: r.apply cs :=
  h.apply_of_none (h.first hd)

/-- A text without the character is kept, whatever follows. -/
theorem apply_append {xs : List Char} (hxs : c ∉ xs) (rest : List Char) :
    r.apply (xs ++ rest) = xs ++ r.apply rest := by
  induction xs with
  | nil => rfl
  | cons x xs ih =>
    simp only [List.mem_cons, not_or] at hxs
    rw [List.cons_append, h.apply_cons (Ne.symm hxs.1), ih hxs.2, List.cons_append]

/-- Parts that the rule goes through one by one it goes through as well with a separator between
them. -/
theorem apply_intercalate {α : Type} {before after : α → List Char} {parts : List α}
    (hparts : ∀ a ∈ parts, ∀ rest, r.apply (before a ++ rest) = after a ++ r.apply rest)
    {s : Char} (hs : s ≠ c) (rest : List Char) :
    r.apply ([s].intercalate (parts.map before) ++ rest) =
      [s].intercalate (parts.map after) ++ r.apply rest := by
  induction parts with
  | nil => rfl
  | cons a as ih =>
    have ha := hparts a (by simp)
    cases as with
    | nil => simpa using ha rest
    | cons b bs =>
      have hbs := ih fun d hd => hparts d (List.mem_cons_of_mem _ hd)
      rw [List.map_cons, List.map_cons] at hbs
      simp only [List.map_cons, List.intercalate_cons_cons, List.append_assoc, ha, h.apply_cons hs,
        hbs, List.cons_append, List.nil_append]

end BeginsWith

end Rule

/-! ## Functions that treat the sides of a character apart -/

/-- The function treats the two sides of the character apart. -/
def SplitsAt (c : Char) (f : List Char → List Char) : Prop :=
  ∀ xs ys, f (xs ++ c :: ys) = f xs ++ c :: f ys

namespace SplitsAt

variable {c : Char} {f : List Char → List Char}

theorem cons (h : SplitsAt c f) (h0 : f [] = []) (ys : List Char) : f (c :: ys) = c :: f ys := by
  have := h [] ys
  rwa [List.nil_append, h0, List.nil_append] at this

theorem concat (h : SplitsAt c f) (h0 : f [] = []) (xs : List Char) :
    f (xs ++ [c]) = f xs ++ [c] := by
  rw [h, h0]

theorem intercalate (h : SplitsAt c f) (h0 : f [] = []) (ps : List (List Char)) :
    f ([c].intercalate ps) = [c].intercalate (ps.map f) := by
  induction ps with
  | nil => exact h0
  | cons p ps ih =>
    cases ps with
    | nil => simp only [List.map_cons, List.map_nil, List.intercalate_singleton]
    | cons q qs =>
      rw [List.intercalate_cons_cons, List.append_assoc, List.singleton_append, h, ih]
      simp [List.intercalate_cons_cons]

end SplitsAt

theorem Rule.Cuts.splitsAt {r : Rule} {c : Char} (h : r.Cuts c) : SplitsAt c r.apply :=
  applyFrom_append_of_cuts h false

@[simp] theorem Rule.apply_nil (r : Rule) : r.apply [] = [] := r.applyFrom_nil false

/-! ## What cuts which rule -/

theorem path_cuts {c : Char} (hc : isWordChar c = false) (hc' : c ≠ ':') : path.Cuts c where
  gap := hc
  first inWord cs := by
    have : isSegmentStart c = false := by
      cases hs : isSegmentStart c with
      | false => rfl
      | true =>
        have ha : isAsciiWordChar c = true := by
          simp only [isSegmentStart, Bool.or_eq_true, decide_eq_true_eq] at hs
          rcases hs with hs | rfl
          · simp [isAsciiWordChar, Char.isAlphanum, hs]
          · decide
        rw [isWordChar_of_isAsciiWordChar ha] at hc
        exact hc
    simp [path, removal, afterSegment?, this]
  later inWord x xs ys := by
    have hn : c ∉ [':', ':'] := by simpa using hc'
    simp only [path, removal, afterSegment?, List.cons_append, dropWhile_append_cons hc,
      after?_append_cons hn]
    split <;> simp [Function.comp_def]

theorem afterLifetime_append_cons {c : Char} (hc : isWordChar c = false) (hc' : c ≠ '\'')
    (xs ys : List Char) : afterLifetime (xs ++ c :: ys) = afterLifetime xs ++ c :: ys := by
  cases xs with
  | nil =>
    unfold afterLifetime
    split
    · next heq => exact absurd (List.cons.inj heq).1 hc'
    · rfl
  | cons x xs =>
    by_cases hx : x = '\''
    · subst hx
      simp only [List.cons_append, afterLifetime, afterSome?_append_cons hc]
      cases afterSome? isWordChar xs <;> rfl
    · unfold afterLifetime
      simp [hx]

theorem reference_cuts {c : Char} (hc : isWordChar c = false) (hb : isBlank c = false)
    (hc' : c ≠ '&') (hc'' : c ≠ '\'') : reference.Cuts c where
  gap := hc
  first inWord cs := by simp [reference, removal, afterReference?, after?, Ne.symm hc']
  later inWord x xs ys := by
    have hn : c ∉ ['&'] := by simpa using hc'
    simp only [reference, removal, afterReference?]
    rw [after?_append_cons hn, Option.map_map, Option.map_map, Option.map_map, Option.map_map]
    congr 1
    funext zs
    simp [afterLifetime_append_cons hc hc'', dropWhile_append_cons hb]

theorem textAlias_cuts {c : Char} (hc : isWordChar c = false) : textAlias.Cuts c where
  gap := hc
  first inWord cs := by simp [textAlias, textWord?, hc]
  later inWord x xs ys := by
    simp only [textAlias, textWord?]
    rw [takeWhile_append_cons hc, dropWhile_append_cons hc]
    split
    · rfl
    · split <;> rfl

end ChainTypings.Spelling
