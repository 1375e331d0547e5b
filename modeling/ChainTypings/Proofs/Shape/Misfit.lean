import ChainTypings.Proofs.Shape.Ordinary
import ChainTypings.Proofs.Text.AsciiWord
import Mathlib.Data.List.Basic

/-!
# Values of a wrong form

A type text is meant to have a shape or to name no type. Where a text holds a value, a third end is
possible: the value may have a form that its conversion does not foresee. Bit lengths and counts
are asked to be digit signs, and then converted as digits; the flags of an inline set are converted
as they come.

`Misfit` says that such a value is what a text fails on, at whatever depth. Only these texts neither
have a shape nor are refused as naming no type (`shaped_or_refused_iff`).
-/

namespace ChainTypings

open Text

/-! ## Flags -/

namespace Json

/-- The value names one flag with its bit: it is a list, an object or a text of two, and the first
of a list is no list and no object itself. -/
inductive IsPair : Json → Prop
  | items {flag bit : Json} : flag.key? ≠ none → IsPair (.arr [flag, bit])
  | fields {fields : List (String × Json)} : fields.length = 2 → IsPair (.obj fields)
  | letters {s : String} : s.toList.length = 2 → IsPair (.str s)

/-- The value lists flags with their bits: it is an object, a list of pairs or the empty text. -/
inductive IsFlags : Json → Prop
  | object (fields) : IsFlags (.obj fields)
  | pairs {items : List Json} : (∀ v ∈ items, v.IsPair) → IsFlags (.arr items)
  | empty : IsFlags (.str "")

end Json

namespace Construct

open Json

theorem isPair_iff {v : Json} :
    v.IsPair ↔ ∃ flag bit, pairItems? v = some [flag, bit] ∧ flag.key? ≠ none := by
  constructor
  · intro h
    cases h with
    | @items flag bit hkey => exact ⟨flag, bit, rfl, hkey⟩
    | @fields fields hlength =>
      obtain ⟨f, g, rfl⟩ := List.length_eq_two.1 hlength
      exact ⟨.str f.1, .str g.1, rfl, by simp [key?]⟩
    | @letters s hlength =>
      obtain ⟨c, d, hs⟩ := List.length_eq_two.1 hlength
      refine ⟨.str (String.singleton c), .str (String.singleton d), ?_, by simp [key?]⟩
      simp [pairItems?, hs]
  · rintro ⟨flag, bit, hitems, hkey⟩
    unfold pairItems? at hitems
    split at hitems
    · obtain rfl := Option.some.inj hitems
      exact .items hkey
    · refine .letters ?_
      simpa using congrArg List.length (Option.some.inj hitems)
    · refine .fields ?_
      simpa using congrArg List.length (Option.some.inj hitems)
    · cases hitems

/-- Pairs are read, and nothing else is. -/
theorem flagPairs_isOk_iff (vs : List Json) (index : Nat) (acc : List (Json × Json)) :
    (∃ fs, flagPairs index acc vs = .ok fs) ↔ ∀ v ∈ vs, v.IsPair := by
  induction vs generalizing index acc with
  | nil => exact ⟨fun _ _ hv => absurd hv List.not_mem_nil, fun _ => ⟨acc, rfl⟩⟩
  | cons v rest ih =>
    rw [List.forall_mem_cons, isPair_iff]
    constructor
    · rintro ⟨fs, hread⟩
      unfold flagPairs at hread
      split at hread
      · cases hread
      · next flag bit hitems =>
        split at hread
        · cases hread
        · next key hkey =>
          refine ⟨⟨flag, bit, hitems, ?_⟩, (ih _ _).1 ⟨fs, hread⟩⟩
          rw [hkey]
          exact Option.some_ne_none key
      · cases hread
    · rintro ⟨⟨flag, bit, hitems, hkey⟩, hrest⟩
      obtain ⟨key, hkey⟩ := Option.ne_none_iff_exists'.1 hkey
      obtain ⟨fs, hread⟩ := (ih (index + 1) (putFlag flag bit acc)).2 hrest
      refine ⟨fs, ?_⟩
      simp only [flagPairs, hitems, hkey]
      exact hread

theorem readFlags_isOk_iff (v : Json) : (∃ fs, readFlags v = .ok fs) ↔ v.IsFlags := by
  cases v with
  | obj fields => exact ⟨fun _ => .object fields, fun _ => ⟨_, rfl⟩⟩
  | arr items =>
    refine (flagPairs_isOk_iff items 0 []).trans ⟨.pairs, ?_⟩
    rintro (_ | hpairs)
    exact hpairs
  | str s =>
    refine (flagPairs_isOk_iff _ 0 []).trans ⟨?_, ?_⟩
    · intro hpairs
      -- the characters of a text are texts of one
      have hnil : s.toList = [] := by
        refine List.eq_nil_iff_forall_not_mem.2 fun c hc => ?_
        cases hpairs _ (List.mem_map_of_mem hc) with
        | letters hlength => simp at hlength
      obtain rfl : s = "" := String.toList_inj.1 hnil
      exact .empty
    · rintro ⟨⟩
      simp
  | _ =>
    constructor
    · rintro ⟨fs, hread⟩
      cases hread
    · rintro ⟨⟩

theorem isResolution_of_flagPairs {vs : List Json} {index : Nat} {acc : List (Json × Json)}
    {e : ParseError} (h : flagPairs index acc vs = .error e) : e.isResolution = false := by
  induction vs generalizing index acc with
  | nil => cases h
  | cons v rest ih =>
    unfold flagPairs at h
    split at h
    · obtain rfl := Except.error.inj h
      rfl
    · split at h
      · obtain rfl := Except.error.inj h
        rfl
      · exact ih h
    · obtain rfl := Except.error.inj h
      rfl

/-- What is no list of flags is never said to name no type. -/
theorem isResolution_of_readFlags {v : Json} {e : ParseError} (h : readFlags v = .error e) :
    e.isResolution = false := by
  unfold readFlags at h
  split at h
  · cases h
  · exact isResolution_of_flagPairs h
  · exact isResolution_of_flagPairs h
  · obtain rfl := Except.error.inj h
    rfl

/-! ## Counts -/

theorem count_isOk_iff (digits : List Char) :
    (∃ n, count digits = .ok n) ↔ ∀ c ∈ digits, isDecimalDigit c = true := by
  constructor
  · rintro ⟨n, hcount⟩
    unfold count at hcount
    split at hcount
    · next hnumber => exact isDecimalDigit_of_decimalNumber? hnumber
    · cases hcount
  · intro hdigits
    obtain ⟨n, hn⟩ := exists_decimalNumber? hdigits
    exact ⟨.int n, by rw [count, hn]⟩

theorem isResolution_of_count {digits : List Char} {e : ParseError}
    (h : count digits = .error e) : e.isResolution = false := by
  unfold count at h
  split at h
  · cases h
  · obtain rfl := Except.error.inj h
    rfl

theorem exists_error_of_not_isOk {ε α : Type} {x : Except ε α} (h : ¬∃ a, x = .ok a) :
    ∃ e, x = .error e := by
  cases x with
  | error e => exact ⟨e, rfl⟩
  | ok a => exact absurd ⟨a, rfl⟩ h

/-- A digit sign that is no digit makes a count fail. -/
theorem exists_count_eq_error {digits : List Char}
    (h : ∃ c ∈ digits, isDecimalDigit c = false) :
    ∃ e, count digits = .error e ∧ e.isResolution = false := by
  have hfails : ¬∃ n, count digits = .ok n := by
    rw [count_isOk_iff]
    obtain ⟨c, hc, hsign⟩ := h
    intro hdigits
    rw [hdigits c hc] at hsign
    cases hsign
  obtain ⟨e, he⟩ := exists_error_of_not_isOk hfails
  exact ⟨e, he, isResolution_of_count he⟩

/-- A count fails on a digit sign that is no digit. -/
theorem exists_sign_of_count {digits : List Char} {e : ParseError}
    (h : count digits = .error e) : ∃ c ∈ digits, isDecimalDigit c = false := by
  by_contra hnone
  have hdigits : ∀ c ∈ digits, isDecimalDigit c = true := by
    intro c hc
    by_contra hsign
    exact hnone ⟨c, hc, by simpa using hsign⟩
  obtain ⟨n, hn⟩ := (count_isOk_iff digits).2 hdigits
  rw [hn] at h
  cases h

end Construct

namespace Shape

open Construct ChainTypings.Bracket Spelling

/-! ## Texts that fail on a value -/

/-- A value of a wrong form is what the text fails on. -/
inductive Misfit : List Char → Prop
  /-- The bit length of a number holds a digit sign that is no digit. -/
  | bits {text value tag bits label} : ofText text = .ok (value, .number tag bits label) →
      (∃ c ∈ bits, isDecimalDigit c = false) → Misfit text
  /-- So does the count of a fixed vector, and its element has a shape. -/
  | count {text value element digits s} : ofText text = .ok (value, .vecFixed element digits) →
      parse element = .ok s → (∃ c ∈ digits, isDecimalDigit c = false) → Misfit text
  /-- The flags of an inline set are none. -/
  | flags {text fields v} : (normalize text).head? = some '{' →
      isBalanced (normalize text) = true → Json.readChars (normalize text) = .ok (.obj fields) →
      fields.lookup "_enum" = none → fields.lookup "_set" = some v → ¬v.IsFlags → Misfit text
  /-- A text beneath fails on a value, and those in front of it have shapes. -/
  | beneath {text value c before operand after} : ofText text = .ok (value, c) →
      c.operands = before ++ operand :: after → (∀ t ∈ before, ∃ s, parse t = .ok s) →
      Misfit operand → Misfit text

variable {text : List Char}

/-- The flags of an inline set are what reading the set fails on. -/
theorem ofText_of_not_isFlags {fields : List (String × Json)} {v : Json}
    (hbrace : (normalize text).head? = some '{') (hbalanced : isBalanced (normalize text) = true)
    (hread : Json.readChars (normalize text) = .ok (.obj fields))
    (henum : fields.lookup "_enum" = none) (hset : fields.lookup "_set" = some v)
    (hflags : ¬v.IsFlags) : ∃ e, ofText text = .error e ∧ e.isResolution = false := by
  rw [← readFlags_isOk_iff] at hflags
  obtain ⟨e, he⟩ := exists_error_of_not_isOk hflags
  refine ⟨e, ?_, isResolution_of_readFlags he⟩
  have hne : (normalize text).isEmpty = false := by
    cases hn : normalize text with
    | nil =>
      rw [hn] at hbrace
      cases hbrace
    | cons c cs => rfl
  have hunit : normalize text ≠ ['(', ')'] := by
    intro hn
    rw [hn] at hbrace
    cases hbrace
  have hinline : Construct.read (normalize text) = .error e := by
    simp only [Construct.read, hbalanced, Bool.not_true, Bool.false_eq_true, if_false,
      if_neg hunit, if_pos hbrace, ofInline, hread, ofFields, henum, hset, he]
  simp only [ofText, hne, hinline, Bool.false_eq_true, if_false]

/-- A text that fails on a value is not refused as one that names no type. -/
theorem exists_error_of_misfit (h : Misfit text) :
    ∃ e, parse text = .error e ∧ e.isResolution = false := by
  induction h with
  | bits htext hsign =>
    obtain ⟨e, he, hkind⟩ := exists_count_eq_error hsign
    refine ⟨e, ?_, hkind⟩
    rw [parse_eq, htext]
    simp only [operands, parseEach, assemble, he]
    rfl
  | count htext helement hsign =>
    obtain ⟨e, he, hkind⟩ := exists_count_eq_error hsign
    refine ⟨e, ?_, hkind⟩
    rw [parse_eq, htext]
    simp only [operands, parseEach, helement, assemble, he]
    rfl
  | flags hbrace hbalanced hread henum hset hflags =>
    obtain ⟨e, he, hkind⟩ := ofText_of_not_isFlags hbrace hbalanced hread henum hset hflags
    refine ⟨e, ?_, hkind⟩
    rw [parse_eq, he]
  | beneath htext hoperands hbefore _ ih =>
    obtain ⟨e, he, hkind⟩ := ih
    refine ⟨e, ?_, hkind⟩
    have heach := parseEach_eq_error_iff.2 ⟨_, _, _, hoperands, hbefore, he⟩
    rw [parse_eq, htext]
    simp only [heach]

/-- Reading one construct fails otherwise than for want of a type on the flags of a set only. -/
theorem misfit_of_ofText {e : ParseError} (h : ofText text = .error e)
    (hkind : e.isResolution = false) : Misfit text := by
  unfold ofText at h
  dsimp only at h
  split at h
  · obtain rfl := Except.error.inj h
    cases hkind
  split at h
  · cases h
  next hread =>
  obtain rfl := Except.error.inj h
  by_cases hbrace : (normalize text).head? = some '{'
  · unfold Construct.read at hread
    split at hread
    · obtain rfl := Except.error.inj hread
      cases hkind
    next hbalanced =>
    split at hread
    · cases hread
    unfold ofInline at hread
    dsimp only at hread
    split at hread
    · obtain rfl := Except.error.inj hread
      cases hkind
    · next fields hjson =>
      unfold ofFields at hread
      split at hread
      · cases hread
      · cases hread
      · obtain rfl := Except.error.inj hread
        cases hkind
      next henum =>
      split at hread
      · next v hset =>
        refine .flags hbrace (by simpa using hbalanced) hjson henum hset ?_
        rw [← readFlags_isOk_iff]
        rintro ⟨fs, hfs⟩
        simp only [hfs] at hread
        cases hread
      · cases hread
    · obtain rfl := Except.error.inj hread
      cases hkind
  · rw [isResolution_of_read hbrace hread] at hkind
    cases hkind

/-- A construct is not put together only if a digit sign stands for a digit. -/
theorem misfit_of_assemble {value : List Char} {c : Construct} {shapes : List Shape}
    {type : String} {e : ParseError} (htext : ofText text = .ok (value, c))
    (hshapes : parseEach parse c.operands = .ok shapes)
    (h : c.assemble type shapes = .error e) : Misfit text := by
  have counted : ∀ {digits : List Char} {f : Json → Shape},
      (Construct.count digits >>= fun length => Except.ok (f length)) = .error e →
        ∃ d ∈ digits, isDecimalDigit d = false := by
    intro digits f hbind
    cases hcount : Construct.count digits with
    | error e' => exact exists_sign_of_count hcount
    | ok n =>
      rw [hcount] at hbind
      cases hbind
  cases c with
  | number tag bits label => exact .bits htext (counted h)
  | vecFixed element digits =>
    simp only [operands, parseEach] at hshapes
    split at hshapes
    · cases hshapes
    · next hparse => exact .count htext hparse (counted h)
  | _ => cases h

/-- A text that fails otherwise than for want of a type fails on a value. -/
theorem misfit_of_parse {e : ParseError} (h : parse text = .error e)
    (hkind : e.isResolution = false) : Misfit text := by
  induction hw : weight text using Nat.strongRecOn generalizing text with
  | ind w ih =>
    rw [parse_eq] at h
    split at h
    · next htext =>
      obtain rfl := Except.error.inj h
      exact misfit_of_ofText htext hkind
    next value c htext =>
    split at h
    · next heach =>
      obtain rfl := Except.error.inj h
      obtain ⟨before, t, after, hoperands, hbefore, ht⟩ := parseEach_eq_error_iff.1 heach
      have hmem : t ∈ c.operands := by simp [hoperands]
      -- the operand that fails is lighter than the text
      have hmisfit := ih _ (hw ▸ weight_lt_of_ofText htext hmem) ht rfl
      exact .beneath htext hoperands hbefore hmisfit
    · next hshapes => exact misfit_of_assemble htext hshapes h

theorem parseNamed_eq_error_iff (name : Json) {e : ParseError} :
    parseNamed name text = .error e ↔ parse text = .error e := by
  unfold parseNamed
  cases parse text with
  | error e' => rfl
  | ok s =>
    constructor
    · intro h
      cases h
    · intro h
      cases h

/-- A text has a shape or is refused as naming no type, unless a value of a wrong form is what it
fails on. -/
theorem shaped_or_refused_iff (name : Json) (text : List Char) :
    ((∃ s, parseNamed name text = .ok s) ∨
      ∃ e, parseNamed name text = .error e ∧ e.isResolution = true) ↔ ¬Misfit text := by
  constructor
  · intro h hmisfit
    obtain ⟨e, he, hkind⟩ := exists_error_of_misfit hmisfit
    have hnamed := (parseNamed_eq_error_iff name).2 he
    rcases h with ⟨s, hs⟩ | ⟨e', he', hkind'⟩
    · cases hnamed.symm.trans hs
    · obtain rfl := Except.error.inj (hnamed.symm.trans he')
      rw [hkind] at hkind'
      cases hkind'
  · intro h
    cases hparse : parseNamed name text with
    | ok s => exact .inl ⟨s, rfl⟩
    | error e =>
      refine .inr ⟨e, rfl, ?_⟩
      by_contra hkind
      rw [Bool.not_eq_true] at hkind
      exact h (misfit_of_parse ((parseNamed_eq_error_iff name).1 hparse) hkind)

/-- Whether the result is a shape or an error that says that a text names no type. -/
def isShapedOrRefused : Except ParseError Shape → Bool
  | .ok _ => true
  | .error e => e.isResolution

theorem exists_error_of_isShapedOrRefused {r : Except ParseError Shape}
    (h : isShapedOrRefused r = false) : ∃ e, r = .error e ∧ e.isResolution = false := by
  cases r with
  | ok s => cases h
  | error e => exact ⟨e, rfl, h⟩

/-- A count of two superscripts, at the end of a text that has all else in order, and a set whose
flags are a number. -/
theorem parse_squaredCount :
    (∃ e, parseNamed .null "Option<(u32,[u8;4²])>".toList = .error e ∧
      e.isResolution = false) ∧
    ∃ e, parseNamed .null "\x7b\"_set\":3\x7d".toList = .error e ∧ e.isResolution = false :=
  ⟨exists_error_of_isShapedOrRefused (by decide +kernel),
    exists_error_of_isShapedOrRefused (by decide +kernel)⟩

end Shape

end ChainTypings
