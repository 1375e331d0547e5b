import ChainTypings.Proofs.Spelling.Naming
import ChainTypings.Shape.Construct

/-!
# Reading phrases

What the text of a phrase is read as, one construct deep. The forms are told apart by how a text
starts and ends: a parenthesis, a square bracket, a word that is a reference to the registry, a
word in front of an angle bracket, or any other word.

The text of a phrase is well-bracketed, so the matcher finds the bracket that ends a piece and the
splitter finds the pieces between commas, however deep the phrase.
-/

namespace ChainTypings.Text.AsciiWord

/-- The word as a text. -/
def toString (w : AsciiWord) : String := String.ofList w.chars

@[simp] theorem toList_toString (w : AsciiWord) : w.toString.toList = w.chars :=
  String.toList_ofList

/-- The word of a reference to the registry. -/
def lookup : AsciiWord := .of ['L', 'o', 'o', 'k', 'u', 'p']

/-- Whether the word is a reference to the registry: its word with a number behind. -/
def IsLookup (w : AsciiWord) : Prop := ∃ n : Numeral, w.chars = lookup.chars ++ n.digits

end ChainTypings.Text.AsciiWord

namespace ChainTypings.Construct

open Text Spelling ChainTypings.Bracket

/-! ## Bracketed types -/

theorem inside?_of_ne {o c : Char} (h : c ≠ o) (cs : List Char) : inside? o (c :: cs) = none := by
  rw [inside?, if_neg h]

theorem inside?_of_nested {o k : Char} (hk : closerOf? o = some k) {outer : Char → Prop}
    {cs : List Char} (h : Nested outer cs) : inside? o (o :: (cs ++ [k])) = some cs := by
  obtain ⟨hc, ho⟩ := isCloser_of_closerOf? hk
  rw [inside?, if_pos rfl, enclosed_of_nested h hc ho]

theorem inside?_append {o : Char} (ho : isWordChar o = false) (w : AsciiWord)
    (cs : List Char) : inside? o (w.chars ++ cs) = none := by
  obtain ⟨c, ds, hc⟩ := w.exists_cons
  have hw := w.isWordChar c (by rw [hc]; exact List.mem_cons_self)
  rw [hc, List.cons_append, inside?_of_ne (ne_of_isWordChar hw ho)]

/-- The text of a phrase passes the checks in front of its form. -/
theorem read_eq_of_phrase (t : Phrase) (h : t.print ≠ ['(', ')']) :
    read t.print =
      match inside? '(' t.print with
      | some inside => .ok (tuple (splitTopLevel [','] inside))
      | none =>
        match inside? '[' t.print with
        | some inside => ofSquare t.print inside
        | none =>
          match lookupNumber? t.print with
          | some index => .ok (indirection index)
          | none => ofName t.print := by
  have hbrace : t.print.head? ≠ some '\x7b' := by
    intro hh
    exact t.not_mem_print rfl (by decide) (List.mem_of_mem_head? hh)
  rw [read, isBalanced_of_nested t.nested_print, if_neg h, if_neg hbrace]
  rfl

theorem read_tuple {ts : List Phrase} (h : ts ≠ []) :
    read (Phrase.tuple ts).print = .ok (tuple (ts.map Phrase.print)) := by
  obtain ⟨t, us, rfl⟩ := List.exists_cons_of_ne_nil h
  have hin : inside? '(' (Phrase.tuple (t :: us)).print = some (Phrase.joined (t :: us)) :=
    inside?_of_nested rfl (Phrase.nested_joined fun t _ => t.nested_print)
  have hne : (Phrase.tuple (t :: us)).print ≠ ['(', ')'] := by
    intro he
    have hj : Phrase.joined (t :: us) ++ [')'] = [] ++ [')'] := (List.cons.inj he).2
    have hj := List.append_cancel_right hj
    -- what stands between the parentheses is not empty
    cases us with
    | nil => exact t.print_ne_nil (by simpa using hj)
    | cons u us => simp at hj
  rw [read_eq_of_phrase _ hne, hin]
  exact congrArg (Except.ok ∘ tuple) (Phrase.splitTopLevel_joined (t :: us))

theorem read_array (t : Phrase) (n : Numeral) :
    read (t.array n).print = .ok (vecFixed t.print n.digits) := by
  have hnested : Nested (fun _ => True) (t.print ++ ';' :: n.digits) :=
    (t.nested_print.mono fun _ _ => trivial).append
      (.plain rfl rfl trivial ((Phrase.nested_chars n.word).mono fun _ _ => trivial))
  have hprint : (t.array n).print = '[' :: ((t.print ++ ';' :: n.digits) ++ [']']) := by
    simp [Phrase.print]
  have hround : inside? '(' (t.array n).print = none := inside?_of_ne (by decide) _
  have hsquare : inside? '[' (t.array n).print = some (t.print ++ ';' :: n.digits) := by
    rw [hprint]
    exact inside?_of_nested rfl hnested
  rw [read_eq_of_phrase _ (by simp [Phrase.print]), hround, hsquare]
  simp only [ofSquare, t.splitTopLevel_array n, n.allDigits_digits, if_true]

theorem read_slice (t : Phrase) : read t.slice.print = .ok (vec t.print) := by
  have hround : inside? '(' t.slice.print = none := inside?_of_ne (by decide) _
  have hsquare : inside? '[' t.slice.print = some t.print :=
    inside?_of_nested rfl t.nested_print
  rw [read_eq_of_phrase _ (by simp [Phrase.print]), hround, hsquare]
  simp only [ofSquare, t.splitTopLevel_slice]

/-! ## References to the registry -/

theorem chomp_eq_self {cs : List Char} (h : '\n' ∉ cs) : chomp cs = cs := by
  rw [chomp, if_neg]
  intro hl
  exact h (List.mem_of_getLast? hl)

theorem lookupNumber?_lookup (n : Numeral) :
    lookupNumber? (AsciiWord.lookup.chars ++ n.digits) = some n.value := by
  have hafter : after? ['L', 'o', 'o', 'k', 'u', 'p'] (AsciiWord.lookup.chars ++ n.digits) =
      some n.digits := rfl
  have hne : n.digits.isEmpty = false := by simpa using n.ne_nil
  have hchomp : chomp n.digits = n.digits :=
    chomp_eq_self (n.word.not_mem_chars rfl)
  rw [lookupNumber?, hafter]
  simp only [hchomp, hne, n.decimalNumber?_digits]
  rfl

/-- Where a number is read, the text is the word of a reference with ASCII digits behind, if it has
only ASCII word characters. -/
theorem isLookup_of_lookupNumber? {w : AsciiWord} {n : Nat}
    (h : lookupNumber? w.chars = some n) : w.IsLookup := by
  unfold lookupNumber? at h
  split at h
  · next tail ht =>
    have hw : w.chars = AsciiWord.lookup.chars ++ tail := after?_eq ht
    have hascii : ∀ c ∈ tail, isAsciiWordChar c = true := by
      intro c hc
      refine w.ascii c ?_
      rw [hw]
      exact List.mem_append_right _ hc
    have hchomp : chomp tail = tail := chomp_eq_self fun hm => absurd (hascii _ hm) (by decide)
    simp only [hchomp] at h
    split at h
    · exact absurd h (by simp)
    · next hne =>
      refine ⟨⟨tail, by simpa using hne, fun c hc => ?_⟩, hw⟩
      obtain ⟨v, hv⟩ := Option.isSome_iff_exists.1 (isDecimalDigit_of_decimalNumber? h c hc)
      exact isDigit_of_decimalValue? (hascii c hc) hv
  · exact absurd h (by simp)

theorem lookupNumber?_generic (w : AsciiWord) (ts : List Phrase) :
    lookupNumber? (Phrase.generic w ts).print = none := by
  cases hn : lookupNumber? (Phrase.generic w ts).print with
  | none => rfl
  | some n =>
    unfold lookupNumber? at hn
    split at hn
    · next tail ht =>
      have hprint := after?_eq ht
      have hmem : '<' ∈ tail := by
        have hlt : '<' ∈ (Phrase.generic w ts).print := by simp [Phrase.print]
        rw [hprint, List.mem_append] at hlt
        exact hlt.resolve_left (by decide)
      have hchomp : chomp tail = tail := by
        refine chomp_eq_self ?_
        intro hm
        have : '\n' ∈ (Phrase.generic w ts).print := by
          rw [hprint]
          exact List.mem_append_right _ hm
        exact (Phrase.generic w ts).not_mem_print rfl (by decide) this
      simp only [hchomp] at hn
      split at hn
      · exact absurd hn (by simp)
      · -- the angle bracket is among what would have to be digits
        exact absurd (isDecimalDigit_of_decimalNumber? hn _ hmem) (by decide)
    · exact absurd hn (by simp)

/-! ## Names and generic types -/

/-- A phrase that starts with a word is a reference to the registry or read by its name. -/
theorem read_of_word {t : Phrase} {w : AsciiWord} {cs : List Char} (h : t.print = w.chars ++ cs) :
    read t.print =
      match lookupNumber? t.print with
      | some index => .ok (indirection index)
      | none => ofName t.print := by
  have hne : t.print ≠ ['(', ')'] := by
    rw [h]
    exact w.append_ne_cons rfl
  rw [read_eq_of_phrase t hne, h, inside?_append rfl, inside?_append rfl]

/-- A word that is no reference to the registry is a plain name. -/
theorem read_name {w : AsciiWord} (h : ¬w.IsLookup) : read (Phrase.name w).print = .ok plain := by
  have hlookup : lookupNumber? (Phrase.name w).print = none := by
    cases hn : lookupNumber? (Phrase.name w).print with
    | none => rfl
    | some n => exact absurd (isLookup_of_lookupNumber? hn) h
  have hlast : (Phrase.name w).print.getLast? ≠ some '>' := by
    intro hl
    exact w.not_mem_chars rfl (List.mem_of_getLast? hl)
  rw [read_of_word (t := .name w) (List.append_nil w.chars).symm, hlookup]
  simp only [ofName, if_neg hlast]

theorem read_lookup {w : AsciiWord} {n : Numeral}
    (h : w.chars = AsciiWord.lookup.chars ++ n.digits) :
    read (Phrase.name w).print = .ok (indirection n.value) := by
  have hprint : (Phrase.name w).print = AsciiWord.lookup.chars ++ n.digits := h
  rw [read_of_word hprint, hprint, lookupNumber?_lookup]

/-- A generic type is read by its name. -/
theorem read_generic (w : AsciiWord) (ts : List Phrase) :
    read (Phrase.generic w ts).print =
      match generics.lookup w.toString with
      | some tag => ofArguments (Phrase.generic w ts).print tag (ts.map Phrase.print)
      | none => .ok plain := by
  have hprint : (Phrase.generic w ts).print = w.chars ++ '<' :: (Phrase.joined ts ++ ['>']) := rfl
  have hlast : (Phrase.generic w ts).print.getLast? = some '>' := by
    rw [hprint, ← List.cons_append, ← List.append_assoc, List.getLast?_append]
    rfl
  have hne : ∀ c ∈ w.chars, decide (c ≠ '<') = true := by
    intro c hc
    exact decide_eq_true (ne_of_isWordChar (w.isWordChar c hc) rfl)
  have htake : (Phrase.generic w ts).print.takeWhile (fun c => decide (c ≠ '<')) = w.chars := by
    rw [hprint, takeWhile_append_cons rfl, List.takeWhile_eq_self_iff.2 hne]
  have hdrop : ((Phrase.generic w ts).print.dropWhile (fun c => decide (c ≠ '<'))).drop 1 =
      Phrase.joined ts ++ ['>'] := by
    rw [hprint, dropWhile_append_cons rfl, List.dropWhile_eq_nil_iff.2 hne]
    rfl
  rw [read_of_word hprint, lookupNumber?_generic]
  simp only [ofName, if_pos hlast, htake, hdrop, List.dropLast_concat, Phrase.splitTopLevel_joined]
  rfl

end ChainTypings.Construct
