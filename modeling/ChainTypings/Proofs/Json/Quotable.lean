import ChainTypings.Proofs.Json.RoundTrip
import ChainTypings.Proofs.Spelling.Interspersed

/-!
# JSON texts that the normal spelling keeps

A quotable text is well-bracketed and has nothing to be normalised. It stays so in quotes, however
often it is escaped, and the text of a value that is made of quotable texts is quotable as a whole
(`Settled.quotable`). So a definition may be nested to any depth, as an object or as a text.
-/

namespace ChainTypings.Json

open Text Spelling ChainTypings.Bracket

/-! ## Quotable texts -/

/-- A well-bracketed text in which the normal spelling finds nothing to do. -/
structure Quotable (cs : List Char) : Prop where
  interspersed : Interspersed cs
  nested : Nested (fun _ => True) cs

theorem quotable_word {w : AsciiWord} (h : w.isText = false) : Quotable w.chars where
  interspersed := .stretch (.phrase (t := .name w) (.name w)
    (congrArg Phrase.name (AsciiWord.renamed_eq_self h)) rfl)
  nested := (Phrase.nested_chars w).mono fun _ _ => trivial

/-- No escape holds a bracket. -/
theorem nested_dumpChar {c : Char} (ho : isOpener c = false) (hc : isCloser c = false) :
    Nested (fun _ => True) (dumpChar c) := by
  have hplain : ∀ {cs : List Char}, (∀ d ∈ cs, isOpener d = false ∧ isCloser d = false) →
      Nested (fun _ => True) cs :=
    fun h => .of_forall (fun d hd => (h d hd).1) (fun d hd => (h d hd).2) fun _ _ => trivial
  have hdigit : ∀ d < 16, isOpener (Nat.digitChar d) = false ∧ isCloser (Nat.digitChar d) = false := by
    decide
  have hunit : ∀ {u : Nat}, u < 0x10000 → Nested (fun _ => True) (unitEscape u) := by
    intro u hu
    refine hplain ?_
    rw [unitEscape, hexDigits_four hu]
    simp only [List.mem_cons, List.not_mem_nil, or_false, forall_eq_or_imp, forall_eq]
    refine ⟨by decide, by decide, ?_, ?_, ?_, ?_⟩ <;> exact hdigit _ (by omega)
  have h := dumped c
  generalize dumpChar c = ds at h ⊢
  cases h with
  | itself _ _ _ _ => exact hplain (by simp [ho, hc])
  | short h =>
    have hshort : ∀ p ∈ shortEscapes, isOpener p.1 = false ∧ isCloser p.1 = false := by decide
    refine hplain ?_
    simp only [List.forall_mem_cons]
    exact ⟨by decide, hshort _ h, by simp⟩
  | unit h => exact hunit h
  | pair _ =>
    have hlt := toNat_lt c
    exact (hunit (by omega)).append (hunit (by omega))

theorem dumpChar_of_closerOf? {o k : Char} (h : closerOf? o = some k) :
    dumpChar o = [o] ∧ dumpChar k = [k] := by
  unfold closerOf? at h
  split at h
  all_goals first
    | (obtain rfl := Option.some.inj h; exact ⟨by decide, by decide⟩)
    | exact absurd h (by simp)

/-- Escapes keep the brackets of a text. -/
theorem nested_flatMap_dumpChar {cs : List Char} (h : Nested (fun _ => True) cs) :
    Nested (fun _ => True) (cs.flatMap dumpChar) := by
  -- the class of the characters is an index of `Nested`, so the induction needs it as a variable
  generalize ho : (fun _ : Char => True) = outer at h
  induction h with
  | nil => exact .nil
  | plain hopen hclose _ _ ih =>
    subst ho
    rw [List.flatMap_cons]
    exact (nested_dumpChar hopen hclose).append (ih rfl)
  | pair hk _ _ ihi iha =>
    subst ho
    obtain ⟨hopen, hclose⟩ := dumpChar_of_closerOf? hk
    rw [List.flatMap_cons, List.flatMap_append, List.flatMap_cons, hopen, hclose]
    exact .pair hk (ihi rfl) (iha rfl)

theorem Quotable.escaped {cs : List Char} (h : Quotable cs) : Quotable (cs.flatMap dumpChar) where
  interspersed := h.interspersed.escaped
  nested := nested_flatMap_dumpChar h.nested

/-! ## Values of quotable texts -/

/-- A value made of null, integers, texts, lists of texts and objects without repeated keys, all of
whose texts and keys are quotable. -/
inductive Settled : Json → Prop
  | null : Settled .null
  | int (n) : Settled (.int n)
  | str {s} : Quotable s.toList → Settled (.str s)
  | texts {ss : List String} : (∀ s ∈ ss, Quotable s.toList) → Settled (.arr (ss.map .str))
  | obj {fields} : (fields.map (·.1)).Nodup → (∀ f ∈ fields, Quotable f.1.toList) →
      (∀ f ∈ fields, Settled f.2) → Settled (.obj fields)

theorem Settled.plain {v : Json} (h : v.Settled) : v.Plain := by
  induction h with
  | null => exact .null
  | int n => exact .int n
  | str _ => exact .str _
  | texts _ =>
    refine .arr fun v hv => ?_
    obtain ⟨s, -, rfl⟩ := List.mem_map.1 hv
    exact .str s
  | obj hk _ _ ih => exact .obj hk ih

/-- The digits of a number as a numeral. -/
def numeralOf (n : Nat) : Numeral where
  digits := Nat.toDigits 10 n
  ne_nil := Nat.toDigits_ne_nil
  decimal := isDigit_of_mem_decimal

theorem quotable_cons {c : Char} (hc : c ∈ dividers) (ho : isOpener c = false)
    (ho' : isCloser c = false) {cs : List Char} (h : Quotable cs) : Quotable (c :: cs) where
  interspersed := h.interspersed.cons hc
  nested := .plain ho ho' trivial h.nested

theorem quotable_append {c : Char} (hc : c ∈ dividers) (ho : isOpener c = false)
    (ho' : isCloser c = false) {cs ds : List Char} (h : Quotable cs) (h' : Quotable ds) :
    Quotable (cs ++ c :: ds) where
  interspersed := h.interspersed.append_divider hc h'.interspersed
  nested := h.nested.append (.plain ho ho' trivial h'.nested)

theorem quotable_nil : Quotable [] := ⟨.nil, .nil⟩

theorem quotable_intChars (n : Int) : Quotable (intChars n) := by
  have hdigits : Quotable (Nat.toDigits 10 n.natAbs) :=
    quotable_word (w := (numeralOf n.natAbs).word) (AsciiWord.isText_numeral _)
  unfold intChars
  split
  · exact quotable_cons (by decide) rfl rfl hdigits
  · exact hdigits

theorem quotable_dumpString {s : String} (h : Quotable s.toList) : Quotable (dumpString s) := by
  rw [dumpString, List.cons_append]
  refine quotable_cons (by decide) rfl rfl ?_
  exact quotable_append (by decide) rfl rfl h.escaped quotable_nil

/-- A field with its colon behind the quote of its key. -/
theorem quotable_field {k : String} (hk : Quotable k.toList) {cs : List Char} (h : Quotable cs) :
    Quotable (dumpString k ++ ':' :: cs) where
  interspersed := by
    have hchars : dumpString k ++ ':' :: cs =
        '"' :: (k.toList.flatMap dumpChar ++ '"' :: ':' :: cs) := by simp [dumpString]
    rw [hchars]
    exact (hk.escaped.interspersed.append_colon h.interspersed).cons (by decide)
  nested := (quotable_dumpString hk).nested.append (.plain rfl rfl trivial h.nested)

theorem quotable_fields {fs : List (String × Json)} (hk : ∀ f ∈ fs, Quotable f.1.toList)
    (h : ∀ f ∈ fs, Quotable (written [] f.2)) : Quotable (writtenFields [] fs) := by
  induction fs with
  | nil => exact quotable_nil
  | cons f fs ih =>
    obtain ⟨k, v⟩ := f
    have hfield : Quotable (dumpString k ++ ':' :: ([] ++ written [] v)) :=
      quotable_field (hk (k, v) (by simp)) (h (k, v) (by simp))
    have ih := ih (fun e he => hk e (List.mem_cons_of_mem _ he))
      fun e he => h e (List.mem_cons_of_mem _ he)
    cases fs with
    | nil => exact hfield
    | cons e es => exact quotable_append (by decide) rfl rfl hfield ih

/-- The texts of a list up to its closing bracket, behind the quote of the first. -/
theorem interspersed_texts {s : String} {ss : List String}
    (h : ∀ t ∈ s :: ss, Quotable t.toList) : ∃ body, Interspersed body ∧
      writtenItems [] ((s :: ss).map .str) ++ [']'] = '"' :: body := by
  -- the closing bracket is a stretch of its own, behind the quote of the last text
  induction ss generalizing s with
  | nil =>
    have hs := (h s (by simp)).escaped.interspersed
    exact ⟨_, hs.append_divider (c := '"') (by decide) (.stretch .closing),
      by simp [writtenItems, written, dumpString]⟩
  | cons t ts ih =>
    have hs := (h s (by simp)).escaped.interspersed
    obtain ⟨body, hbody, he⟩ := ih fun u hu => h u (List.mem_cons_of_mem _ hu)
    refine ⟨_, hs.append_divider (c := '"') (by decide)
      ((hbody.cons (c := '"') (by decide)).cons (c := ',') (by decide)), ?_⟩
    rw [← he]
    simp [writtenItems, written, dumpString]

theorem nested_texts {ss : List String} (h : ∀ s ∈ ss, Quotable s.toList) :
    Nested (fun _ => True) (writtenItems [] (ss.map .str)) := by
  induction ss with
  | nil => exact .nil
  | cons s ss ih =>
    have hs := (quotable_dumpString (h s (by simp))).nested
    have ih := ih fun t ht => h t (List.mem_cons_of_mem _ ht)
    cases ss with
    | nil => exact hs
    | cons t ts => exact hs.append (.plain rfl rfl trivial ih)

/-- The text without gaps of a value of quotable texts is quotable. -/
theorem Settled.quotable {v : Json} (h : v.Settled) : Quotable (written [] v) := by
  induction h with
  | null => exact quotable_word (w := .of ['n', 'u', 'l', 'l']) (by decide)
  | int n => exact quotable_intChars n
  | str hs => exact quotable_dumpString hs
  | @texts ss hss =>
    refine ⟨?_, .bracket rfl (nested_texts hss)⟩
    cases ss with
    | nil => exact .stretch .list
    | cons s ss =>
      obtain ⟨body, hbody, he⟩ := interspersed_texts hss
      rw [written, he]
      exact .divider .opening (by decide) hbody
  | @obj fs _ hkeys _ ih =>
    have hfields := quotable_fields hkeys ih
    refine ⟨?_, .bracket rfl hfields.nested⟩
    exact (hfields.interspersed.concat (by decide)).cons (by decide)

end ChainTypings.Json
