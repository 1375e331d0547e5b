import ChainTypings.Json.Dump
import ChainTypings.Proofs.Spelling.Naming
import Mathlib.Data.Bool.AllAny

/-!
# Type texts among quotes

The text of an inline definition is no type text: phrases stand in it between quotes, commas,
braces and the backslashes of escapes. An `Interspersed` text is such a mixture. It stays one when
it is escaped (`Interspersed.escaped`), so an inline definition may hold another as a text.

No pass of the normal spelling finds anything to do in it, whatever blanks are added
(`Interspersed.normalize_of_filter`): a pass acts on one stretch at a time, and each stretch is in
its normal spelling already.
-/

namespace ChainTypings.Spelling

open Text

/-! ## Stretches and dividers -/

/-- What stands between two dividers: nothing, the brackets of a list, or a phrase in its normal
spelling. -/
inductive Stretch : List Char → Prop
  | nil : Stretch []
  | opening : Stretch ['[']
  | closing : Stretch [']']
  | list : Stretch ['[', ']']
  | phrase {t : Phrase} : t.Proper → t.renamed = t → t.packed = t → Stretch t.print

/-- The characters that part stretches from each other. -/
def dividers : List Char := ['{', '}', '"', ',', '\\', '-']

/-- Stretches with dividers between; a colon stands behind a quote only. -/
inductive Interspersed : List Char → Prop
  | stretch {s} : Stretch s → Interspersed s
  | divider {s c cs} : Stretch s → c ∈ dividers → Interspersed cs → Interspersed (s ++ c :: cs)
  | colon {s cs} : Stretch s → Interspersed cs → Interspersed (s ++ '"' :: ':' :: cs)

theorem isWordChar_eq_false_of_mem_dividers {c : Char} (h : c ∈ dividers) : isWordChar c = false := by
  have hall : (dividers.all fun d => !isWordChar d) = true := by decide
  simpa using List.all_eq_true.1 hall c h

theorem ne_of_mem_dividers {c d : Char} (hc : c ∈ dividers) (hd : d ∉ dividers) : c ≠ d := by
  rintro rfl
  exact hd hc

namespace Interspersed

variable {xs ys : List Char}

theorem nil : Interspersed [] := .stretch .nil

theorem append_divider (h : Interspersed xs) {c : Char} (hc : c ∈ dividers)
    (h' : Interspersed ys) : Interspersed (xs ++ c :: ys) := by
  induction h with
  | stretch hs => exact .divider hs hc h'
  | divider hs hd _ ih =>
    rw [List.append_assoc, List.cons_append]
    exact .divider hs hd ih
  | colon hs _ ih =>
    rw [List.append_assoc, List.cons_append, List.cons_append]
    exact .colon hs ih

theorem append_colon (h : Interspersed xs) (h' : Interspersed ys) :
    Interspersed (xs ++ '"' :: ':' :: ys) := by
  induction h with
  | stretch hs => exact .colon hs h'
  | divider hs hd _ ih =>
    rw [List.append_assoc, List.cons_append]
    exact .divider hs hd ih
  | colon hs _ ih =>
    rw [List.append_assoc, List.cons_append, List.cons_append]
    exact .colon hs ih

/-- A divider in front. -/
theorem cons {c : Char} (hc : c ∈ dividers) (h : Interspersed xs) : Interspersed (c :: xs) :=
  .divider .nil hc h

/-- A divider at the end. -/
theorem concat {c : Char} (hc : c ∈ dividers) (h : Interspersed xs) : Interspersed (xs ++ [c]) :=
  h.append_divider hc nil

end Interspersed

/-! ## Escapes -/

theorem Phrase.forall_mem_joined {p : Char → Prop} (hc : p ',') {ts : List Phrase}
    (h : ∀ t ∈ ts, ∀ c ∈ t.print, p c) : ∀ c ∈ joined ts, p c := by
  intro c hm
  rcases mem_joined hm with rfl | ⟨t, ht, hm⟩
  · exact hc
  · exact h t ht c hm

/-- What holds of the ASCII word characters and of the marks of the grammar holds of each
character of a phrase. -/
theorem Phrase.forall_mem_print {p : Char → Prop} (hw : ∀ c, isAsciiWordChar c = true → p c)
    (hm : ∀ c ∈ ['(', ')', '[', ']', '<', '>', ',', ';'], p c) (t : Phrase) :
    ∀ c ∈ t.print, p c := by
  simp only [List.mem_cons, List.not_mem_nil, or_false, forall_eq_or_imp, forall_eq] at hm
  obtain ⟨hm₁, hm₂, hm₃, hm₄, hm₅, hm₆, hm₇, hm₈⟩ := hm
  have hword : ∀ (w : AsciiWord), ∀ c ∈ w.chars, p c := fun w c hc => hw c (w.ascii c hc)
  induction t with
  | name w => exact hword w
  | tuple ts ih =>
    have hts := forall_mem_joined hm₇ ih
    simp only [print, List.forall_mem_cons, List.forall_mem_append]
    exact ⟨hm₁, hts, hm₂, by simp⟩
  | array t n ih =>
    have hn : ∀ c ∈ n.digits, p c := hword n.word
    simp only [print, List.forall_mem_cons, List.forall_mem_append]
    exact ⟨hm₃, ih, hm₈, hn, hm₄, by simp⟩
  | slice t ih =>
    simp only [print, List.forall_mem_cons, List.forall_mem_append]
    exact ⟨hm₃, ih, hm₄, by simp⟩
  | generic h ts ih =>
    have hts := forall_mem_joined hm₇ ih
    simp only [print, List.forall_mem_cons, List.forall_mem_append]
    exact ⟨hword h, hm₅, hts, hm₆, by simp⟩

theorem dumpChar_of_isAsciiWordChar {c : Char} (h : isAsciiWordChar c = true) :
    Json.dumpChar c = [c] := by
  have := forall_asciiWordChar (p := fun c => Json.dumpChar c = [c]) (by decide) h
  simpa using this

theorem flatMap_dumpChar_eq_self {cs : List Char} (h : ∀ c ∈ cs, Json.dumpChar c = [c]) :
    cs.flatMap Json.dumpChar = cs := by
  induction cs with
  | nil => rfl
  | cons c cs ih =>
    simp only [List.mem_cons, forall_eq_or_imp] at h
    rw [List.flatMap_cons, h.1, ih h.2, List.singleton_append]

theorem Stretch.flatMap_dumpChar {s : List Char} (h : Stretch s) :
    s.flatMap Json.dumpChar = s := by
  cases h with
  | nil => rfl
  | opening => decide
  | closing => decide
  | list => decide
  | @phrase t _ _ _ =>
    refine flatMap_dumpChar_eq_self (t.forall_mem_print ?_ ?_)
    · exact fun c hc => dumpChar_of_isAsciiWordChar hc
    · exact List.all_iff_forall_prop.1 (by decide)

/-- An escaped text is of the same kind: the escapes add dividers only. -/
theorem Interspersed.escaped {xs : List Char} (h : Interspersed xs) :
    Interspersed (xs.flatMap Json.dumpChar) := by
  induction h with
  | stretch hs =>
    rw [hs.flatMap_dumpChar]
    exact .stretch hs
  | @divider s c cs hs hc _ ih =>
    rw [List.flatMap_append, List.flatMap_cons, hs.flatMap_dumpChar]
    have hself : ∀ d ∈ dividers, d ≠ '"' → d ≠ '\\' → Json.dumpChar d = [d] :=
      List.all_iff_forall_prop.1 (by decide)
    by_cases hq : c = '"'
    · subst hq
      exact .divider hs (by decide) (.cons hc ih)
    by_cases hb : c = '\\'
    · subst hb
      exact .divider hs hc (.cons hc ih)
    rw [hself c hc hq hb]
    exact .divider hs hc ih
  | colon hs _ ih =>
    rw [List.flatMap_append, List.flatMap_cons, List.flatMap_cons, hs.flatMap_dumpChar]
    exact .divider hs (by decide) (.colon .nil ih)

/-! ## The passes in front of the removal of blanks -/

/-- Neighbours of which the second is no colon unless the first is a quote. -/
def Quoted (a b : Char) : Prop := b = ':' → a = '"'

/-- What holds of the neighbours in a text without some characters holds of those in the text, if
it holds of the characters that are left out. -/
theorem isChain_of_filter {p : Char → Bool} {R S : Char → Char → Prop}
    (hRS : ∀ a b, p a = true → p b = true → R a b → S a b)
    (hS : ∀ a b, p a = false ∨ p b = false → S a b) {cs : List Char}
    (h : (cs.filter p).IsChain R) : cs.IsChain S := by
  induction cs with
  | nil => exact .nil
  | cons a cs ih =>
    have htail : (cs.filter p).IsChain R := by
      by_cases ha : p a = true
      · rw [List.filter_cons_of_pos ha] at h
        exact (List.isChain_cons.1 h).2
      · rwa [List.filter_cons_of_neg ha] at h
    refine List.isChain_cons.2 ⟨fun b hb => ?_, ih htail⟩
    by_cases hab : p a = true ∧ p b = true
    · -- both neighbours are kept, and nothing stands between them
      obtain ⟨ha, hpb⟩ := hab
      cases cs with
      | nil => exact absurd hb (by simp)
      | cons c cs =>
        obtain rfl : c = b := Option.some.inj hb
        rw [List.filter_cons_of_pos ha, List.filter_cons_of_pos hpb] at h
        exact hRS a c ha hpb ((List.isChain_cons.1 h).1 c rfl)
    · refine hS a b ?_
      simp only [not_and_or, Bool.not_eq_true] at hab
      exact hab

theorem Stretch.not_mem {s : List Char} (h : Stretch s) {c : Char} (hw : isWordChar c = false)
    (hc : c ∉ ['(', ')', '[', ']', '<', '>', ',', ';']) : c ∉ s := by
  have hsquare : c ≠ '[' ∧ c ≠ ']' := by
    refine ⟨?_, ?_⟩ <;>
    · rintro rfl
      exact hc (by decide)
  cases h with
  | nil => simp
  | opening => simp [hsquare.1]
  | closing => simp [hsquare.2]
  | list => simp [hsquare.1, hsquare.2]
  | phrase _ _ _ => exact Phrase.not_mem_print hw hc _

/-- A text in which a colon stands behind a quote only, and not at the start. -/
structure Quoting (cs : List Char) : Prop where
  chain : cs.IsChain Quoted
  head : ∀ c ∈ cs.head?, c ≠ ':'

namespace Quoting

variable {cs ds : List Char}

theorem append (h : Quoting cs) (h' : Quoting ds) : Quoting (cs ++ ds) where
  chain := List.isChain_append.2 ⟨h.chain, h'.chain, fun _ _ b hb hcolon =>
    absurd hcolon (h'.head b hb)⟩
  head c hc := by
    cases cs with
    | nil => exact h'.head c hc
    | cons x xs => exact h.head c hc

theorem cons {c : Char} (hc : c ≠ ':') (h : Quoting cs) : Quoting (c :: cs) where
  chain := List.isChain_cons.2 ⟨fun b hb hcolon => absurd hcolon (h.head b hb), h.chain⟩
  head d hd := by
    rw [← Option.some.inj hd]
    exact hc

theorem of_not_mem (h : ':' ∉ cs) : Quoting cs := by
  induction cs with
  | nil => exact ⟨.nil, by simp⟩
  | cons c cs ih =>
    simp only [List.mem_cons, not_or] at h
    exact (ih h.2).cons (Ne.symm h.1)

/-- A colon behind a quote. -/
theorem colon (h : Quoting cs) : Quoting ('"' :: ':' :: cs) where
  chain := by
    refine List.isChain_cons.2 ⟨fun _ _ _ => rfl, ?_⟩
    exact List.isChain_cons.2 ⟨fun b hb hcolon => absurd hcolon (h.head b hb), h.chain⟩
  head c hc := by
    rw [← Option.some.inj hc]
    decide

end Quoting

namespace Interspersed

variable {xs : List Char} (h : Interspersed xs)

include h

theorem not_mem_amp : '&' ∉ xs := by
  induction h with
  | stretch hs => exact hs.not_mem rfl (by decide)
  | divider hs hc _ ih =>
    simp only [List.mem_append, List.mem_cons, not_or]
    exact ⟨hs.not_mem rfl (by decide), (ne_of_mem_dividers hc (by decide)).symm, ih⟩
  | colon hs _ ih =>
    simp only [List.mem_append, List.mem_cons, not_or]
    exact ⟨hs.not_mem rfl (by decide), by decide, by decide, ih⟩

theorem quoting : Quoting xs := by
  have hstretch : ∀ {s : List Char}, Stretch s → Quoting s :=
    fun hs => .of_not_mem (hs.not_mem rfl (by decide))
  induction h with
  | stretch hs => exact hstretch hs
  | divider hs hc _ ih => exact (hstretch hs).append (ih.cons (ne_of_mem_dividers hc (by decide)))
  | colon hs _ ih => exact (hstretch hs).append ih.colon

/-- Whatever blanks are added, there is no projection, no path and no reference. -/
theorem undecorated {cs : List Char} (hcs : cs.filter (!isBlank ·) = xs) :
    reference.apply (path.apply (projection.apply cs)) = cs := by
  have hchain := h.quoting.chain
  have hamp : '&' ∉ cs := by
    intro hm
    refine h.not_mem_amp ?_
    rw [← hcs, List.mem_filter]
    exact ⟨hm, by decide⟩
  rw [← hcs] at hchain
  have hcolon : isBlank ':' = false := by decide
  have hgt : isBlank '>' = false := by decide
  have hapart : cs.IsChain Apart := by
    refine isChain_of_filter ?_ ?_ hchain
    · rintro a b - - hab ⟨rfl, rfl⟩
      exact absurd (hab rfl) (by decide)
    · rintro a b hab ⟨rfl, rfl⟩
      simp [hcolon, hgt] at hab
  have hpath : cs.IsChain fun a b => ¬(a = ':' ∧ b = ':') := by
    refine isChain_of_filter ?_ ?_ hchain
    · rintro a b - - hab ⟨rfl, rfl⟩
      exact absurd (hab rfl) (by decide)
    · rintro a b hab ⟨rfl, rfl⟩
      simp [hcolon] at hab
  rw [projection_apply_eq_self hapart, path_apply_eq_self_of_chain hpath,
    reference_apply_eq_self hamp]

end Interspersed

/-! ## The passes behind the removal of blanks -/

theorem bytesAlias_splitsAt {c : Char} (hc : c ∈ dividers ∨ c = ':') :
    SplitsAt c bytesAlias.apply := by
  have hall : ∀ c ∈ ':' :: dividers, isWordChar c = false ∧
      c ∉ ['V', 'e', 'c', '<', 'u', '8', '>'] ∧ c ∉ ['[', 'u', '8', ']'] :=
    List.all_iff_forall_prop.1 (by decide)
  obtain ⟨hw, hv, hs⟩ := hall c (List.mem_cons.2 hc.symm)
  exact (bytesAlias_cuts hw hv hs).splitsAt

/-- No box starts at a character that a box does not hold. -/
theorem firstBox?_append_cons {c : Char} (hc : c ∉ ['B', 'o', 'x', '<'])
    (hw : isWordChar c = false) {xs ys : List Char} {inWord : Bool}
    (hx : firstBox? inWord xs = none) (hy : firstBox? false ys = none) :
    firstBox? inWord (xs ++ c :: ys) = none := by
  induction xs generalizing inWord with
  | nil =>
    have hafter : after? ['B', 'o', 'x', '<'] (c :: ys) = none := by
      have := after?_append_cons hc [] ys
      simpa [after?] using this
    rw [List.nil_append, firstBox?, hafter, hw, hy]
    cases inWord <;> rfl
  | cons x xs ih =>
    rw [List.cons_append, firstBox?]
    rw [firstBox?] at hx
    cases inWord with
    | true =>
      simp only [if_true, Option.map_eq_none_iff] at hx ⊢
      exact ih hx
    | false =>
      rw [if_neg Bool.false_ne_true] at hx ⊢
      rw [← List.cons_append, after?_append_cons hc]
      cases ha : after? ['B', 'o', 'x', '<'] (x :: xs) with
      | some rest =>
        rw [ha] at hx
        exact absurd hx (by simp)
      | none =>
        rw [ha] at hx
        simp only [Option.map_eq_none_iff] at hx
        simp only [Option.map_none, Option.map_eq_none_iff]
        exact ih hx

namespace Stretch

theorem apply_bracket {r : Rule} {c : Char} (h : r.find? false [c] = none) : r.apply [c] = [c] := by
  rw [Rule.apply, Rule.applyFrom_of_none h, Rule.applyFrom_nil]

theorem apply_brackets {r : Rule} {c d : Char} (h : r.find? false [c, d] = none)
    (h' : r.find? (isWordChar c) [d] = none) : r.apply [c, d] = [c, d] := by
  rw [Rule.apply, Rule.applyFrom_of_none h, Rule.applyFrom_of_none h', Rule.applyFrom_nil]

variable {s : List Char} (h : Stretch s)

include h

theorem textAlias_apply : textAlias.apply s = s := by
  cases h with
  | nil => exact textAlias.apply_nil
  | opening => exact apply_bracket rfl
  | closing => exact apply_bracket rfl
  | list => exact apply_brackets rfl rfl
  | @phrase t _ hr _ => rw [t.textAlias_apply_print, hr]

theorem bytesAlias_apply : bytesAlias.apply s = s := by
  cases h with
  | nil => exact bytesAlias.apply_nil
  | opening => exact apply_bracket rfl
  | closing => exact apply_bracket rfl
  | list => exact apply_brackets rfl rfl
  | @phrase t _ _ hp => rw [t.bytesAlias_apply_print, hp]

theorem firstBox?_eq_none : firstBox? false s = none := by
  cases h with
  | nil => rfl
  | opening => rfl
  | closing => rfl
  | list => rfl
  | phrase ht _ _ => exact ht.unboxed.firstBox?_print

theorem oneElement_apply_append (rest : List Char) :
    oneElement.apply (s ++ rest) = s ++ oneElement.apply rest := by
  cases h with
  | nil => rfl
  | opening => exact oneElement_beginsWith.apply_append (by decide) rest
  | closing => exact oneElement_beginsWith.apply_append (by decide) rest
  | list => exact oneElement_beginsWith.apply_append (by decide) rest
  | phrase ht _ _ => exact ht.oneElement_apply_append rest

end Stretch

namespace Interspersed

variable {xs : List Char} (h : Interspersed xs)

include h

theorem textAlias_apply : textAlias.apply xs = xs := by
  induction h with
  | stretch hs => exact hs.textAlias_apply
  | divider hs hc _ ih =>
    rw [(textAlias_cuts (isWordChar_eq_false_of_mem_dividers hc)).splitsAt, hs.textAlias_apply, ih]
  | colon hs _ ih =>
    rw [(textAlias_cuts rfl).splitsAt,
      ((textAlias_cuts (c := ':') rfl).splitsAt).cons textAlias.apply_nil, hs.textAlias_apply, ih]

theorem bytesAlias_apply : bytesAlias.apply xs = xs := by
  induction h with
  | stretch hs => exact hs.bytesAlias_apply
  | divider hs hc _ ih => rw [bytesAlias_splitsAt (.inl hc), hs.bytesAlias_apply, ih]
  | colon hs _ ih =>
    rw [bytesAlias_splitsAt (.inl (by decide)),
      (bytesAlias_splitsAt (.inr rfl)).cons bytesAlias.apply_nil, hs.bytesAlias_apply, ih]

theorem firstBox?_eq_none : firstBox? false xs = none := by
  induction h with
  | stretch hs => exact hs.firstBox?_eq_none
  | @divider s c cs hs hc _ ih =>
    have hbox : ∀ c ∈ dividers, c ∉ ['B', 'o', 'x', '<'] := List.all_iff_forall_prop.1 (by decide)
    exact firstBox?_append_cons (hbox c hc) (isWordChar_eq_false_of_mem_dividers hc)
      hs.firstBox?_eq_none ih
  | @colon s cs hs _ ih =>
    have hcolon : firstBox? false ([] ++ ':' :: cs) = none :=
      firstBox?_append_cons (by decide) rfl rfl ih
    exact firstBox?_append_cons (by decide) rfl hs.firstBox?_eq_none hcolon

theorem oneElement_apply : oneElement.apply xs = xs := by
  induction h with
  | stretch hs =>
    have := hs.oneElement_apply_append []
    rwa [List.append_nil, Rule.apply_nil, List.append_nil] at this
  | divider hs hc _ ih =>
    -- only a round bracket starts a piece, and those stand inside the stretches
    rw [hs.oneElement_apply_append,
      oneElement_beginsWith.apply_cons (ne_of_mem_dividers hc (by decide)), ih]
  | colon hs _ ih =>
    rw [hs.oneElement_apply_append, oneElement_beginsWith.apply_cons (by decide),
      oneElement_beginsWith.apply_cons (by decide), ih]

/-- Whatever blanks are added, the normal spelling is the text without them. -/
theorem normalize_of_filter {cs : List Char} (hcs : cs.filter (!isBlank ·) = xs) :
    normalize cs = xs := by
  rw [normalize, h.undecorated hcs, hcs, unbox_eq_self h.firstBox?_eq_none, h.textAlias_apply,
    h.bytesAlias_apply, flatten, h.oneElement_apply, if_neg (Nat.lt_irrefl _)]

end Interspersed

end ChainTypings.Spelling
