import ChainTypings.Proofs.Spelling.Balanced
import ChainTypings.Proofs.Spelling.Cut
import ChainTypings.Render.Format

/-!
# Arrays that are taken over as they are

On one line a text that reads as an inline expression is taken over, but for arrays of fixed length.
Such an array is recognised if its element and its length are single words, wherever it stands in
the text (`hasFixedArray_iff`). So an array of fixed length whose element is another type is taken
over, unless such a word array stands in its element (`isShortcut_arrayText_iff`): as the element is
balanced, no word array begins in it and ends behind it.
-/

namespace ChainTypings

namespace Shortcut

open ChainTypings.Bracket Spelling Text

/-! ## Arrays of words -/

/-- A text of word characters. -/
structure Word where
  chars : List Char
  ne_nil : chars ≠ []
  word : ∀ c ∈ chars, isWordChar c = true

/-- An array of fixed length whose element and length are words, with blanks in front of the
length. -/
structure WordArray where
  element : Word
  gap : List Char
  blank : ∀ c ∈ gap, isBlank c = true
  length : Word

namespace WordArray

variable (a : WordArray)

/-- The text between the brackets. -/
def inside : List Char := a.element.chars ++ ';' :: (a.gap ++ a.length.chars)

/-- The text of the array. -/
def chars : List Char := '[' :: (a.inside ++ [']'])

theorem isPlain_inside : ∀ c ∈ a.inside, IsPlain c := by
  have hsemicolon : IsPlain ';' := ⟨rfl, rfl⟩
  simp only [inside, List.forall_mem_append, List.forall_mem_cons]
  exact ⟨fun c hc => isPlain_of_isWordChar (a.element.word c hc), hsemicolon,
    fun c hc => isPlain_of_isBlank (a.blank c hc),
    fun c hc => isPlain_of_isWordChar (a.length.word c hc)⟩

end WordArray

/-- The reader of such arrays finds one if the text starts with one. -/
theorem isSome_afterFixedArray?_iff {cs : List Char} :
    (afterFixedArray? cs).isSome = true ↔ ∃ a : WordArray, a.chars <+: cs := by
  constructor
  · intro h
    obtain ⟨rest, hrest⟩ := Option.isSome_iff_exists.1 h
    simp only [afterFixedArray?, Option.bind_eq_bind, Option.bind_eq_some_iff] at hrest
    obtain ⟨c₁, h₁, c₂, h₂, c₃, h₃, c₄, h₄, h₅⟩ := hrest
    obtain ⟨e, element, helement, hword⟩ := afterSome?_eq h₂
    obtain ⟨n, length, hlength, hcount⟩ := afterSome?_eq h₄
    obtain ⟨gap, hgap, hblank⟩ :
        ∃ gap, c₃ = gap ++ c₃.dropWhile isBlank ∧ ∀ c ∈ gap, isBlank c = true :=
      ⟨c₃.takeWhile isBlank, List.takeWhile_append_dropWhile.symm, forall_mem_takeWhile⟩
    refine ⟨⟨⟨e :: element, by simp, hword⟩, gap, hblank, ⟨n :: length, by simp, hcount⟩⟩, rest, ?_⟩
    rw [after?_eq h₁, helement, after?_eq h₃, hgap, hlength, after?_eq h₅]
    simp [WordArray.chars, WordArray.inside]
  · rintro ⟨a, rest, rfl⟩
    obtain ⟨n, length, hlength⟩ := List.exists_cons_of_ne_nil a.length.ne_nil
    have hfirst : isBlank n = false := by
      by_contra hblank
      have hn := a.length.word n (hlength ▸ List.mem_cons_self)
      rw [isWordChar_eq_false_of_isBlank (by simpa using hblank)] at hn
      exact Bool.noConfusion hn
    have hgap : (a.gap ++ a.length.chars ++ ']' :: rest).dropWhile isBlank =
        a.length.chars ++ ']' :: rest := by
      rw [List.append_assoc, List.dropWhile_append_of_pos a.blank, hlength, List.cons_append,
        List.dropWhile_cons_of_neg (by simp [hfirst])]
    have htext : a.chars ++ rest =
        '[' :: (a.element.chars ++ ';' :: (a.gap ++ a.length.chars ++ ']' :: rest)) := by
      simp [WordArray.chars, WordArray.inside]
    have hread : afterFixedArray? (a.chars ++ rest) = some rest := by
      simp only [afterFixedArray?, htext, after?, if_true, Option.bind_eq_bind, Option.bind_some,
        afterSome?_run a.element.ne_nil a.element.word (show isWordChar ';' = false by decide), hgap,
        afterSome?_run a.length.ne_nil a.length.word (show isWordChar ']' = false by decide)]
    rw [hread]
    rfl

/-- A text holds an array of fixed length if an array of words stands in it somewhere. -/
theorem hasFixedArray_iff {cs : List Char} :
    hasFixedArray cs = true ↔ ∃ a : WordArray, a.chars <:+: cs := by
  induction cs with
  | nil => simp [hasFixedArray, WordArray.chars]
  | cons c cs ih =>
    rw [hasFixedArray, Bool.or_eq_true, isSome_afterFixedArray?_iff, ih]
    simp only [List.infix_cons_iff, exists_or]

/-! ## Where an array of words can stand -/

/-- What the balance check refuses from whatever state, it refuses behind any text. -/
theorem closes_append_eq_false {rest : List Char} (h : ∀ pending, closes pending rest = false)
    (front pending : List Char) : closes pending (front ++ rest) = false := by
  induction front generalizing pending with
  | nil => exact h pending
  | cons c front ih =>
    rw [List.cons_append, closes.eq_def]
    dsimp only
    split
    · exact ih _
    · split
      · split
        · rfl
        · rw [ih, Bool.and_false]
      · exact ih _

section

variable {element plain rest more : List Char} (hplain : ∀ c ∈ plain, IsPlain c)
include hplain

/-- A bracket that closes nothing keeps a text from being balanced. -/
theorem isBalanced_append_closing : isBalanced (plain ++ ']' :: rest) = false := by
  rw [isBalanced, closes_append_of_isPlain hplain, closes.eq_def]
  rfl

/-- A bracket that nothing closes keeps a text from being balanced. -/
theorem isBalanced_append_opening (front : List Char) :
    isBalanced (front ++ '[' :: plain) = false := by
  refine closes_append_eq_false (fun pending => ?_) front []
  have hopen := closes_append_of_isPlain hplain (']' :: pending) []
  rw [List.append_nil] at hopen
  rw [closes_opener (k := ']') _ _ rfl, hopen]
  rfl

/-- Text without brackets up to a bracket that closes it: if it starts with a balanced text and a
semicolon, then the semicolon is in it. -/
theorem exists_plain_eq (hbalanced : isBalanced element = true)
    (heq : plain ++ ']' :: rest = element ++ ';' :: more) :
    ∃ mid, plain = element ++ ';' :: mid := by
  rcases List.append_eq_append_iff.1 heq with ⟨mid, rfl, hmid⟩ | ⟨mid, rfl, hmid⟩
  · cases mid with
    | nil => simp at hmid
    | cons c mid =>
      obtain rfl := (List.cons.inj hmid).1
      rw [isBalanced_append_closing hplain] at hbalanced
      exact Bool.noConfusion hbalanced
  · cases mid with
    | nil => simp at hmid
    | cons c mid =>
      obtain rfl := (List.cons.inj hmid).1
      exact ⟨mid, rfl⟩

/-- A piece in brackets that holds no other bracket does not reach from a balanced text into what
stands behind it. -/
theorem infix_of_infix_append (hbalanced : isBalanced element = true) (hmore : '[' ∉ more)
    (h : '[' :: (plain ++ [']']) <:+: element ++ ';' :: more) :
    '[' :: (plain ++ [']']) <:+: element := by
  obtain ⟨front, back, heq⟩ := h
  simp only [List.append_assoc, List.cons_append, List.nil_append] at heq
  rcases List.append_eq_append_iff.1 heq with ⟨mid, rfl, hmid⟩ | ⟨mid, rfl, hmid⟩
  · cases mid with
    | nil => simp at hmid
    | cons c mid =>
      obtain ⟨rfl, htail⟩ := List.cons.inj hmid
      rcases List.append_eq_append_iff.1 htail with ⟨left, rfl, hleft⟩ | ⟨left, rfl, -⟩
      · cases left with
        | nil => simp at hleft
        | cons c left =>
          obtain rfl := (List.cons.inj hleft).1
          exact ⟨front, left, by simp⟩
      · -- the bracket that opens the piece is left open in the balanced text
        have hmid : ∀ c ∈ mid, IsPlain c := fun c hc => hplain c (by simp [hc])
        rw [isBalanced_append_opening hmid] at hbalanced
        exact Bool.noConfusion hbalanced
  · -- the piece would stand behind the balanced text
    have hopening : '[' ∈ ';' :: more := by simp [hmid]
    simp [hmore] at hopening

end

/-! ## Arrays of any element -/

/-- The text of an array of fixed length, with blanks in front of the length: a numeral, or any other
word. -/
def arrayText (element gap : List Char) (length : Word) : List Char :=
  '[' :: (element ++ ';' :: (gap ++ (length.chars ++ [']'])))

section

variable {element gap : List Char} (hbalanced : isBalanced element = true)
  (hgap : ∀ c ∈ gap, isBlank c = true) (length : Word)

include hbalanced hgap in
/-- An array of words stands in an array of fixed length if that is one itself, or if one stands in
its element. -/
theorem hasFixedArray_arrayText_iff :
    hasFixedArray (arrayText element gap length) = true ↔
      (∃ w : Word, w.chars = element) ∨ ∃ a : WordArray, a.chars <:+: element := by
  rw [hasFixedArray_iff]
  constructor
  · rintro ⟨a, ha⟩
    rw [arrayText, List.infix_cons_iff] at ha
    rcases ha with ⟨rest, hrest⟩ | ha
    · left
      have heq : a.inside ++ ']' :: rest = element ++ ';' :: (gap ++ (length.chars ++ [']'])) := by
        simpa [WordArray.chars] using hrest
      obtain ⟨mid, hmid⟩ := exists_plain_eq a.isPlain_inside hbalanced heq
      have hsemicolon {cs : List Char} (h : ∀ c ∈ cs, isWordChar c = true) : ';' ∉ cs :=
        not_mem_of_isWordChar (by decide) h
      have hbehind : ';' ∉ a.gap ++ a.length.chars := by
        rw [List.mem_append, not_or]
        exact ⟨fun hmem => absurd (a.blank _ hmem) (by decide), hsemicolon a.length.word⟩
      exact ⟨a.element, ((List.append_cons_inj_of_notMem (hsemicolon a.element.word) hbehind).1
        hmid).1⟩
    · right
      refine ⟨a, infix_of_infix_append a.isPlain_inside hbalanced ?_ ha⟩
      simp only [List.mem_append, List.mem_singleton, not_or]
      exact ⟨fun hmem => absurd (hgap _ hmem) (by decide),
        not_mem_of_isWordChar (by decide) length.word, by decide⟩
  · rintro (⟨w, rfl⟩ | ⟨a, ha⟩)
    · refine ⟨⟨w, gap, hgap, length⟩, [], [], ?_⟩
      simp [arrayText, WordArray.chars, WordArray.inside]
    · exact ⟨a, (ha.trans (List.infix_append' [] element _)).trans (List.suffix_cons _ _).isInfix⟩

/-- A bracket stands on the line on which a text starts, behind another character at least. -/
def ClosesOnLine (cs : List Char) : Prop :=
  ∃ front back, cs = front ++ ']' :: back ∧ front ≠ [] ∧ '\n' ∉ front

theorem isTuple_iff {cs : List Char} : isTuple cs = true ↔ ClosesOnLine cs := by
  rw [isTuple, List.contains_iff_mem]
  constructor
  · intro h
    obtain ⟨c, line, hline⟩ : ∃ c line, firstLine cs = c :: line :=
      List.exists_cons_of_ne_nil fun hnil => by simp [hnil] at h
    rw [hline, List.drop_one, List.tail_cons] at h
    obtain ⟨front, back, rfl⟩ := List.append_of_mem h
    have hrest : firstLine cs ++ cs.dropWhile (· ≠ '\n') = cs := List.takeWhile_append_dropWhile
    refine ⟨c :: front, back ++ cs.dropWhile (· ≠ '\n'), ?_, by simp, fun hmem => ?_⟩
    · rw [← List.cons_append, ← List.append_assoc, List.cons_append, ← hline, hrest]
    · have hbreak : '\n' ∈ firstLine cs := by
        rw [hline, ← List.cons_append]
        exact List.mem_append_left _ hmem
      simpa using List.mem_takeWhile_imp hbreak
  · rintro ⟨front, back, rfl, hne, hline⟩
    obtain ⟨c, front, rfl⟩ := List.exists_cons_of_ne_nil hne
    have hfront : ∀ d ∈ c :: front, decide (d ≠ '\n') = true := by
      intro d hd
      rw [decide_eq_true_eq]
      rintro rfl
      exact hline hd
    rw [firstLine, List.takeWhile_append_of_pos hfront, List.takeWhile_cons_of_pos (by decide)]
    simp

/-- An array of fixed length without line breaks closes on its line. -/
theorem closesOnLine_arrayText (hline : '\n' ∉ element ++ gap) :
    ClosesOnLine (arrayText element gap length).tail := by
  refine ⟨element ++ ';' :: (gap ++ length.chars), [], by simp [arrayText], by simp, ?_⟩
  have hlength : '\n' ∉ length.chars := not_mem_of_isWordChar (by decide) length.word
  simpa [hlength] using hline

/-- An array of fixed length is taken over if its bracket, or one of its element, closes it on its
first line, the element is no word, and no array of words stands in the element. -/
theorem isShortcut_arrayText_iff (hbalanced : isBalanced element = true)
    (hgap : ∀ c ∈ gap, isBlank c = true) :
    isShortcut (arrayText element gap length) = true ↔
      ClosesOnLine (arrayText element gap length).tail ∧
        (∀ w : Word, w.chars ≠ element) ∧ ∀ a : WordArray, ¬a.chars <:+: element := by
  rw [isShortcut, Bool.and_eq_true, Bool.not_eq_true', Bool.eq_false_iff, Ne,
    hasFixedArray_arrayText_iff hbalanced hgap length, not_or, not_exists, not_exists]
  exact and_congr_left' isTuple_iff

end

end Shortcut

namespace Scope

open ChainTypings.Bracket Shortcut Text

variable (s : Scope) (hint : Option String)

/-- A text that is taken over is the outcome, and nothing is mentioned. -/
theorem format_of_isShortcut {cs : List Char} (h : isShortcut cs = true) :
    s.format .oneLine (.text (String.ofList cs)) hint = .done (String.ofList cs) := by
  have hexpression : s.expression .oneLine (.text (String.ofList cs)) hint =
      .done (.name (String.ofList cs)) := by
    rw [expression, String.toList_ofList, if_pos ⟨rfl, h⟩]
  rw [format, hexpression]
  rfl

/-- A text that is not taken over is resolved as in the other layout. -/
theorem expression_of_not_isShortcut {cs : List Char} (h : isShortcut cs = false) :
    s.expression .oneLine (.text (String.ofList cs)) hint =
      s.expression .multiLine (.text (String.ofList cs)) hint := by
  rw [expression, expression, String.toList_ofList, h]
  rfl

/-- An array of fixed length, whatever its element is, is taken over on one line as it is written if
and only if its element is no single word, no array of words stands in the element, and a bracket
closes it on its first line, as one always does if there is no line break. Otherwise it is resolved as
in the other layout. -/
theorem format_arrayText {element gap : List Char} (hbalanced : isBalanced element = true)
    (hgap : ∀ c ∈ gap, isBlank c = true) (length : Word) :
    let text := arrayText element gap length
    (isShortcut text = true ↔ ClosesOnLine text.tail ∧
      (∀ w : Word, w.chars ≠ element) ∧ ∀ a : WordArray, ¬a.chars <:+: element) ∧
    ('\n' ∉ element ++ gap → ClosesOnLine text.tail) ∧
    (isShortcut text = true →
      s.format .oneLine (.text (String.ofList text)) hint = .done (String.ofList text)) ∧
    (isShortcut text = false →
      s.expression .oneLine (.text (String.ofList text)) hint =
        s.expression .multiLine (.text (String.ofList text)) hint) :=
  ⟨isShortcut_arrayText_iff length hbalanced hgap, closesOnLine_arrayText length,
    s.format_of_isShortcut hint, s.expression_of_not_isShortcut hint⟩

/-- How many elements the arrays have that follow. -/
def four : Word := ⟨['4'], by simp, List.all_eq_true.1 (by decide)⟩

theorem format_arrayText_hashes :
    isBalanced "Option<[u8; 32]>".toList = true ∧ (∀ c ∈ [' '], isBlank c = true) ∧
      isShortcut "[Option<[u8; 32]>; 4]".toList = false ∧
      expression ⟨{}, []⟩ .oneLine (.text "[Option<[u8; 32]>; 4]") none =
        expression ⟨{}, []⟩ .multiLine (.text "[Option<[u8; 32]>; 4]") none := by
  have hbalanced : isBalanced "Option<[u8; 32]>".toList = true := by decide
  have hgap : ∀ c ∈ [' '], isBlank c = true := List.all_eq_true.1 (by decide)
  obtain ⟨htaken, -, -, hresolved⟩ := format_arrayText ⟨{}, []⟩ none hbalanced hgap four
  have hnot : isShortcut (arrayText "Option<[u8; 32]>".toList [' '] four) = false := by
    rw [Bool.eq_false_iff, Ne, htaken]
    rintro ⟨-, -, hnone⟩
    refine hnone ⟨⟨['u', '8'], by simp, List.all_eq_true.1 (by decide)⟩, [' '], hgap,
      ⟨['3', '2'], by simp, List.all_eq_true.1 (by decide)⟩⟩ ⟨"Option<".toList, ['>'], rfl⟩
  exact ⟨hbalanced, hgap, hnot, hresolved hnot⟩

/-- An array of four vectors is taken over: its text is the outcome. -/
theorem format_arrayText_vectors :
    isBalanced "Vec<u32>".toList = true ∧
      String.ofList (arrayText "Vec<u32>".toList [] four) = "[Vec<u32>;4]" ∧
      isShortcut "[Vec<u32>;4]".toList = true ∧
      format ⟨{}, []⟩ .oneLine (.text "[Vec<u32>;4]") none = .done "[Vec<u32>;4]" := by
  have htaken : isShortcut "[Vec<u32>;4]".toList = true := by decide +kernel
  exact ⟨by decide, by decide, htaken, format_of_isShortcut _ none htaken⟩

end Scope

end ChainTypings
