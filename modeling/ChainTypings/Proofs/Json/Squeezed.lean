import ChainTypings.Proofs.Json.RoundTrip
import ChainTypings.Text.Blank

/-!
# JSON texts without blanks

The normal spelling takes the blanks out of a JSON text before it is read. A text of a value has no
blanks but spaces, for all others are escaped, so what is left is the text without gaps of the value
whose own texts have lost their spaces (`filter_written`).
-/

namespace ChainTypings.Json

open Text

/-! ## Texts without spaces -/

/-- The text without its spaces. -/
def squeeze (s : String) : String := String.ofList (s.toList.filter (· ≠ ' '))

mutual

/-- The value with its texts and keys squeezed. -/
def squeezed : Json → Json
  | .str s => .str (squeeze s)
  | .arr items => .arr (squeezedItems items)
  | .obj fields => .obj (squeezedFields fields)
  | v => v

/-- Several values with their texts and keys squeezed. -/
def squeezedItems : List Json → List Json
  | [] => []
  | v :: rest => squeezed v :: squeezedItems rest

/-- Several fields with their texts and keys squeezed. -/
def squeezedFields : List (String × Json) → List (String × Json)
  | [] => []
  | (k, v) :: rest => (squeeze k, squeezed v) :: squeezedFields rest

end

theorem squeezedItems_eq_map (vs : List Json) : squeezedItems vs = vs.map squeezed := by
  induction vs with
  | nil => rfl
  | cons v vs ih => rw [squeezedItems, ih, List.map_cons]

theorem squeezedFields_eq_map (fs : List (String × Json)) :
    squeezedFields fs = fs.map fun f => (squeeze f.1, squeezed f.2) := by
  induction fs with
  | nil => rfl
  | cons f fs ih =>
    obtain ⟨k, v⟩ := f
    rw [squeezedFields, ih, List.map_cons]

@[simp] theorem toList_squeeze (s : String) :
    (squeeze s).toList = s.toList.filter (· ≠ ' ') := String.toList_ofList

/-! ## What is written is printable -/

/-- Whether the character is printable ASCII and no space. -/
def isInk (c : Char) : Bool := 32 < c.toNat && c.toNat < 127

theorem isInk_digitChar : ∀ d < 16, isInk (Nat.digitChar d) = true := by decide

/-- A class of characters that tells spaces from all other printable characters. -/
structure Spaceless (p : Char → Bool) : Prop where
  space : p ' ' = false
  ink : ∀ c, isInk c = true → p c = true

theorem spaceless_ne : Spaceless fun c => decide (c ≠ ' ') where
  space := rfl
  ink c h := by
    refine decide_eq_true ?_
    rintro rfl
    exact absurd h (by decide)

theorem spaceless_notBlank : Spaceless fun c => !isBlank c where
  space := rfl
  ink c h := by
    -- the blanks beyond ASCII do not matter here, so the printable range can be gone through
    have hall : ∀ n < 127, 32 < n → blankSpans.contains n = false := by decide
    simp only [isInk, Bool.and_eq_true, decide_eq_true_eq] at h
    rw [isBlank, hall c.toNat h.2 h.1]
    rfl

section

variable {p : Char → Bool} (hp : Spaceless p)

include hp

theorem Spaceless.filter_eq_self {cs : List Char} (h : ∀ c ∈ cs, isInk c = true) :
    cs.filter p = cs :=
  List.filter_eq_self.2 fun c hc => hp.ink c (h c hc)

theorem filter_unitEscape {u : Nat} (h : u < 0x10000) : (unitEscape u).filter p = unitEscape u := by
  refine hp.filter_eq_self ?_
  rw [unitEscape, hexDigits_four h]
  simp only [List.mem_cons, List.not_mem_nil, or_false, forall_eq_or_imp, forall_eq]
  refine ⟨by decide, by decide, ?_, ?_, ?_, ?_⟩ <;> exact isInk_digitChar _ (by omega)

/-- A space leaves nothing of itself, any other character leaves all that is written for it. -/
theorem filter_dumpChar (c : Char) :
    (dumpChar c).filter p = if c = ' ' then [] else dumpChar c := by
  by_cases hs : c = ' '
  · subst hs
    simp [dumpChar, hp.space]
  rw [if_neg hs]
  have h := dumped c
  generalize dumpChar c = ds at h ⊢
  cases h with
  | itself _ _ hc hc' =>
    have hne : c.toNat ≠ 32 := by
      intro he
      refine hs ?_
      rw [← Char.ofNat_toNat c, he]
    have hink : isInk c = true := by
      simp only [isInk, Bool.and_eq_true, decide_eq_true_eq]
      omega
    exact hp.filter_eq_self (by simpa using hink)
  | short h =>
    have hink : ∀ q ∈ shortEscapes, isInk q.1 = true := by decide
    refine hp.filter_eq_self ?_
    simp only [List.forall_mem_cons]
    exact ⟨by decide, hink _ h, by simp⟩
  | unit hc => exact filter_unitEscape hp hc
  | pair _ =>
    have hlt := toNat_lt c
    rw [List.filter_append, filter_unitEscape hp (by omega), filter_unitEscape hp (by omega)]

theorem filter_dumpString (s : String) :
    (dumpString s).filter p = dumpString (squeeze s) := by
  have hq : p '"' = true := hp.ink _ (by decide)
  have hchars : (s.toList.flatMap dumpChar).filter p =
      (s.toList.filter (· ≠ ' ')).flatMap dumpChar := by
    induction s.toList with
    | nil => rfl
    | cons c cs ih =>
      rw [List.flatMap_cons, List.filter_append, filter_dumpChar hp, ih]
      by_cases hs : c = ' '
      · rw [if_pos hs, List.filter_cons_of_neg (by simpa using hs), List.nil_append]
      · rw [if_neg hs, List.filter_cons_of_pos (by simpa using hs), List.flatMap_cons]
  rw [dumpString, dumpString, toList_squeeze, ← hchars]
  simp [hq]

theorem filter_intChars (n : Int) : (intChars n).filter p = intChars n := by
  refine hp.filter_eq_self ?_
  have hdigit : ∀ c ∈ Nat.toDigits 10 n.natAbs, isInk c = true := by
    intro c hc
    have := isDigit_of_mem_decimal c hc
    simp only [Char.isDigit, Bool.and_eq_true, decide_eq_true_eq, UInt32.le_iff_toNat_le] at this
    have hval : c.toNat = c.val.toNat := rfl
    simp only [isInk, Bool.and_eq_true, decide_eq_true_eq, hval]
    simp at this
    omega
  unfold intChars
  split
  · simp only [List.forall_mem_cons]
    exact ⟨by decide, hdigit⟩
  · exact hdigit

variable {gap : List Char} (hgap : ∀ c ∈ gap, p c = false)

include hgap

theorem filter_writtenItems {vs : List Json}
    (h : ∀ v ∈ vs, (written gap v).filter p = written [] v.squeezed) :
    (writtenItems gap vs).filter p = writtenItems [] (squeezedItems vs) := by
  have hgap' : gap.filter p = [] := by simpa [List.filter_eq_nil_iff] using hgap
  have hcomma : p ',' = true := hp.ink _ (by decide)
  induction vs with
  | nil => rfl
  | cons v vs ih =>
    have hv := h v (by simp)
    have ih := ih fun w hw => h w (List.mem_cons_of_mem _ hw)
    cases vs with
    | nil => exact hv
    | cons w ws =>
      rw [writtenItems, List.filter_append, List.filter_cons_of_pos hcomma, List.filter_append,
        hgap', hv, ih]
      rfl

theorem filter_writtenFields {fs : List (String × Json)}
    (h : ∀ f ∈ fs, (written gap f.2).filter p = written [] f.2.squeezed) :
    (writtenFields gap fs).filter p = writtenFields [] (squeezedFields fs) := by
  have hgap' : gap.filter p = [] := by simpa [List.filter_eq_nil_iff] using hgap
  have hcomma : p ',' = true := hp.ink _ (by decide)
  have hcolon : p ':' = true := hp.ink _ (by decide)
  induction fs with
  | nil => rfl
  | cons f fs ih =>
    obtain ⟨k, v⟩ := f
    have hv : (written gap v).filter p = written [] v.squeezed := h (k, v) (by simp)
    have ih := ih fun e he => h e (List.mem_cons_of_mem _ he)
    cases fs with
    | nil =>
      rw [writtenFields, List.filter_append, List.filter_cons_of_pos hcolon, List.filter_append,
        hgap', hv, filter_dumpString hp]
      rfl
    | cons e es =>
      rw [writtenFields, List.filter_append, List.filter_append, List.filter_cons_of_pos hcolon,
        List.filter_cons_of_pos hcomma, List.filter_append, List.filter_append, hgap', hv,
        filter_dumpString hp, ih]
      rfl

/-- Without its blanks the text of a value is the text without gaps of the squeezed value. -/
theorem filter_written {v : Json} (h : v.Plain) :
    (written gap v).filter p = written [] v.squeezed := by
  have hword : ∀ {cs : List Char}, (∀ c ∈ cs, isInk c = true) → cs.filter p = cs :=
    hp.filter_eq_self
  induction h with
  | null => exact hword (List.all_eq_true.1 (by decide : "null".toList.all isInk = true))
  | bool b =>
    cases b
    · exact hword (List.all_eq_true.1 (by decide : "false".toList.all isInk = true))
    · exact hword (List.all_eq_true.1 (by decide : "true".toList.all isInk = true))
  | int n => exact filter_intChars hp n
  | str s => exact filter_dumpString hp s
  | arr _ ih =>
    have hitems := filter_writtenItems hp hgap ih
    rw [written, List.filter_cons_of_pos (hp.ink _ (by decide)), List.filter_append, hitems,
      List.filter_cons_of_pos (hp.ink _ (by decide))]
    rfl
  | obj _ _ ih =>
    have hfields := filter_writtenFields hp hgap ih
    rw [written, List.filter_cons_of_pos (hp.ink _ (by decide)), List.filter_append, hfields,
      List.filter_cons_of_pos (hp.ink _ (by decide))]
    rfl

end

/-- Without its blanks the usual text of a value is the text without gaps of the squeezed value. -/
theorem filter_dumpChars {p : Char → Bool} (hp : Spaceless p) {v : Json} (h : v.Plain) :
    (dumpChars v).filter p = written [] v.squeezed := by
  rw [← written_blank]
  exact filter_written hp (by simpa using hp.space) h

theorem squeeze_squeeze (s : String) : squeeze (squeeze s) = squeeze s := by
  rw [squeeze, toList_squeeze, List.filter_filter]
  simp only [Bool.and_self]
  rfl

/-- Squeezing twice is squeezing once. -/
theorem squeezed_squeezed {v : Json} (h : v.Plain) : v.squeezed.squeezed = v.squeezed := by
  induction h with
  | null => rfl
  | bool b => rfl
  | int n => rfl
  | str s => exact congrArg Json.str (squeeze_squeeze s)
  | @arr vs _ ih =>
    have ih : vs.map (squeezed ∘ squeezed) = vs.map squeezed := List.map_congr_left ih
    simp only [squeezed, squeezedItems_eq_map, List.map_map, ih]
  | @obj fs _ _ ih =>
    have ih : fs.map (fun f => (squeeze (squeeze f.1), f.2.squeezed.squeezed)) =
        fs.map fun f => (squeeze f.1, f.2.squeezed) :=
      List.map_congr_left fun f hf => by rw [squeeze_squeeze, ih f hf]
    simp only [squeezed, squeezedFields_eq_map, List.map_map]
    exact congrArg Json.obj ih

end ChainTypings.Json
