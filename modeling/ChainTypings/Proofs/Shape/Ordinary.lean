import ChainTypings.Proofs.Shape.Valence
import ChainTypings.Proofs.Spelling.Characters

/-!
# Ordinary texts

A text is ordinary if it opens no brace and every digit sign in it is a digit. Such a text spells
no inline definition, and what passes for a count in it is one. So if it has no shape, that is
because it names no type, never because some value in it has a wrong form
(`isResolution_of_parse`); and the types beneath its shape are ordinary again.
-/

namespace ChainTypings

/-- The text opens no brace, and every digit sign in it is a digit. -/
def IsOrdinary (cs : List Char) : Prop :=
  ∀ c ∈ cs, c ≠ '{' ∧ (Text.isDigit c = true → Text.isDecimalDigit c = true)

instance (cs : List Char) : Decidable (IsOrdinary cs) :=
  List.decidableBAll _ cs

namespace IsOrdinary

variable {cs ds : List Char}

theorem of_subset (h : IsOrdinary cs) (hds : ds ⊆ cs) : IsOrdinary ds := fun c hc => h c (hds hc)

theorem normalize (h : IsOrdinary cs) : IsOrdinary (Spelling.normalize cs) := by
  have hnames : IsOrdinary "TextBytes".toList := by decide +kernel
  exact Spelling.forall_normalize hnames h

theorem head?_ne (h : IsOrdinary cs) : cs.head? ≠ some '{' :=
  fun hhead => (h _ (List.mem_of_mem_head? hhead)).1 rfl

end IsOrdinary

/-- Decimal digits spell a number. -/
theorem Text.exists_decimalNumber? {cs : List Char} (h : ∀ c ∈ cs, isDecimalDigit c = true) :
    ∃ n, decimalNumber? cs = some n := by
  unfold decimalNumber?
  generalize 0 = start
  induction cs generalizing start with
  | nil => exact ⟨start, rfl⟩
  | cons c cs ih =>
    obtain ⟨v, hv⟩ := Option.isSome_iff_exists.1 (h c (by simp))
    rw [List.foldlM_cons, hv]
    exact ih (fun d hd => h d (List.mem_cons_of_mem _ hd)) _

namespace Construct

open Text

variable {value digits : List Char} {c : Construct} {e : ParseError}

theorem count_of_isOrdinary (h : IsOrdinary digits) (hdigits : allDigits digits = true) :
    ∃ n, count digits = .ok n := by
  rw [allDigits, Bool.and_eq_true, List.all_eq_true] at hdigits
  obtain ⟨n, hn⟩ := exists_decimalNumber? fun c hc => (h c hc).2 (hdigits.2 c hc)
  exact ⟨.int n, by rw [count, hn]⟩

/-- Reading fails on a form that no type has, unless the text is an inline definition. -/
theorem isResolution_of_read (hv : value.head? ≠ some '{') (h : read value = .error e) :
    e.isResolution = true := by
  have square : ∀ inside, ofSquare value inside = .error e → e.isResolution = true := by
    intro inside h
    unfold ofSquare at h
    split at h
    · split at h
      · cases h
      · obtain rfl := Except.error.inj h
        rfl
    · cases h
  have arguments : ∀ tag args, ofArguments value tag args = .error e → e.isResolution = true := by
    intro tag args h
    unfold ofArguments at h
    dsimp only at h
    repeat' split at h
    all_goals first
      | cases h; done
      | obtain rfl := Except.error.inj h
        rfl
  have name : ofName value = .error e → e.isResolution = true := by
    intro h
    unfold ofName at h
    split at h
    · dsimp only at h
      split at h
      · exact arguments _ _ h
      · cases h
    · cases h
  unfold read at h
  simp only [if_neg hv] at h
  split at h
  · obtain rfl := Except.error.inj h
    rfl
  split at h
  · cases h
  split at h
  · cases h
  split at h
  · exact square _ h
  split at h
  · cases h
  · exact name h

/-- An ordinary construct is always put together. -/
theorem exists_assemble (hv : IsOrdinary value) (hc : ReadFrom value c) (type : String)
    (shapes : List Shape) : ∃ s, c.assemble type shapes = .ok s := by
  cases hc with
  | number _ hdigits hbits =>
    obtain ⟨n, hn⟩ := count_of_isOrdinary (hv.of_subset hbits) hdigits
    exact ⟨_, by rw [assemble, hn]; rfl⟩
  | vecFixed _ hdigits hcount =>
    obtain ⟨n, hn⟩ := count_of_isOrdinary (hv.of_subset hcount) hdigits
    exact ⟨_, by rw [assemble, hn]; rfl⟩
  | _ => exact ⟨_, rfl⟩

/-- What is beneath an ordinary construct is ordinary. -/
theorem isOrdinary_of_mem_operands (hv : IsOrdinary value) (hc : ReadFrom value c)
    {operand : List Char} (ho : operand ∈ c.operands) : IsOrdinary operand := by
  cases hc with
  | tuple h => exact hv.of_subset (h operand ho)
  | vec h | wrapper _ _ h => exact hv.of_subset (List.mem_singleton.1 ho ▸ h)
  | vecFixed h _ _ => exact hv.of_subset (List.mem_singleton.1 ho ▸ h)
  | pair _ h h' =>
    simp only [operands, List.mem_cons, List.not_mem_nil, or_false] at ho
    rcases ho with rfl | rfl
    · exact hv.of_subset h
    · exact hv.of_subset h'
  | members hbrace => exact absurd hbrace hv.head?_ne
  | _ => exact absurd ho List.not_mem_nil

/-- The shapes beneath an ordinary construct are those of its operands. -/
theorem mem_of_assemble (hv : IsOrdinary value) (hc : ReadFrom value c) {type : String}
    {shapes : List Shape} {s child : Shape} (h : c.assemble type shapes = .ok s)
    (hchild : child ∈ s.children) : child ∈ shapes := by
  cases hc with
  | number _ hdigits hbits =>
    obtain ⟨n, hn⟩ := count_of_isOrdinary (hv.of_subset hbits) hdigits
    rw [assemble, hn] at h
    obtain rfl := Except.ok.inj h
    exact absurd hchild List.not_mem_nil
  | vecFixed _ hdigits hcount =>
    obtain ⟨n, hn⟩ := count_of_isOrdinary (hv.of_subset hcount) hdigits
    rw [assemble, hn] at h
    obtain rfl := Except.ok.inj h
    rwa [children_around] at hchild
  | vec | wrapper =>
    obtain rfl := Except.ok.inj h
    rwa [children_around] at hchild
  | tuple | pair =>
    obtain rfl := Except.ok.inj h
    exact hchild
  | members hbrace => exact absurd hbrace hv.head?_ne
  | variants hbrace => exact absurd hbrace hv.head?_ne
  | flags hbrace => exact absurd hbrace hv.head?_ne
  | _ =>
    obtain rfl := Except.ok.inj h
    exact absurd hchild List.not_mem_nil

end Construct

namespace Shape

open Construct

/-- Several texts are parsed up to the first that has no shape. -/
theorem parseEach_eq_error_iff {parse : List Char → Except ParseError Shape}
    {ts : List (List Char)} {e : ParseError} :
    parseEach parse ts = .error e ↔ ∃ before t after, ts = before ++ t :: after ∧
      (∀ u ∈ before, ∃ s, parse u = .ok s) ∧ parse t = .error e := by
  constructor
  · intro h
    induction ts with
    | nil => cases h
    | cons t ts ih =>
      unfold parseEach at h
      split at h
      · next hparse =>
        obtain rfl := Except.error.inj h
        exact ⟨[], t, ts, rfl, by simp, hparse⟩
      · next s hs =>
        split at h
        · next hparse =>
          obtain rfl := Except.error.inj h
          obtain ⟨before, u, after, rfl, hbefore, hu⟩ := ih hparse
          exact ⟨t :: before, u, after, rfl, List.forall_mem_cons.2 ⟨⟨s, hs⟩, hbefore⟩, hu⟩
        · cases h
  · rintro ⟨before, t, after, rfl, hbefore, ht⟩
    induction before with
    | nil =>
      rw [List.nil_append, parseEach, ht]
    | cons u before ih =>
      obtain ⟨⟨s, hs⟩, hrest⟩ := List.forall_mem_cons.1 hbefore
      rw [List.cons_append, parseEach, hs]
      simp only [ih hrest]

/-- An ordinary text has no shape only if it names no type. -/
theorem isResolution_of_parse {text : List Char} (ht : IsOrdinary text) {e : ParseError}
    (h : parse text = .error e) : e.isResolution = true := by
  induction hw : Text.weight text using Nat.strongRecOn generalizing text with
  | ind w ih =>
    rw [parse_eq] at h
    split at h
    · next he =>
      obtain rfl := Except.error.inj h
      unfold ofText at he
      dsimp only at he
      split at he
      · obtain rfl := Except.error.inj he
        rfl
      · split at he
        · cases he
        · next hread =>
          obtain rfl := Except.error.inj he
          exact isResolution_of_read ht.normalize.head?_ne hread
    · next value c hc =>
      obtain ⟨rfl, hread⟩ := ofText_eq_ok hc
      have hfrom := readFrom_read hread
      split at h
      · next he =>
        obtain rfl := Except.error.inj h
        obtain ⟨before, operand, after, hoperands, -, hparse⟩ := parseEach_eq_error_iff.1 he
        have hmem : operand ∈ c.operands := by simp [hoperands]
        -- an operand is lighter than the text
        exact ih _ (hw ▸ weight_lt_of_ofText hc hmem)
          (isOrdinary_of_mem_operands ht.normalize hfrom hmem) hparse rfl
      · next shapes _ =>
        obtain ⟨s, hs⟩ := exists_assemble ht.normalize hfrom (String.ofList _) shapes
        rw [hs] at h
        cases h

/-- The type of the shape of an ordinary text is ordinary. -/
theorem isOrdinary_type {text : List Char} (ht : IsOrdinary text) {s : Shape}
    (h : parse text = .ok s) : IsOrdinary s.head.type.toList := by
  obtain ⟨value, c, shapes, hc, -, ha⟩ := parse_eq_ok h
  obtain ⟨rfl, -⟩ := ofText_eq_ok hc
  rcases type_assemble ha with htype | htype
  · rw [htype, String.toList_ofList]
    exact ht.normalize
  · rw [htype]
    show IsOrdinary "Null".toList
    decide +kernel

/-- The types directly beneath the shape of an ordinary text are ordinary. -/
theorem isOrdinary_type_of_mem {text : List Char} (ht : IsOrdinary text) {s child : Shape}
    (h : parse text = .ok s) (hchild : child ∈ s.children) :
    IsOrdinary child.head.type.toList := by
  obtain ⟨value, c, shapes, hc, hshapes, ha⟩ := parse_eq_ok h
  obtain ⟨rfl, hread⟩ := ofText_eq_ok hc
  have hfrom := readFrom_read hread
  obtain ⟨operand, hmem, hparse⟩ :=
    parseEach_mem hshapes (mem_of_assemble ht.normalize hfrom ha hchild)
  exact isOrdinary_type (isOrdinary_of_mem_operands ht.normalize hfrom hmem) hparse

end Shape

end ChainTypings
