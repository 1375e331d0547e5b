import ChainTypings.Proofs.Spelling.Flattening
import ChainTypings.Spelling.Normal

/-!
# Naming texts and byte sequences

The passes between boxes and parentheses on the text of a phrase: the words for text are renamed
one by one, and every vector and every slice of bytes is renamed.

`Phrase.Unboxed.tidy_print` is the sum of the last passes. Together with the passes that take the
decorations away it gives the normal spelling of every decorated text.
-/

namespace ChainTypings.Spelling

open Text

/-! ## Texts -/

theorem textAlias_apply_word (w : AsciiWord) : textAlias.apply w.chars = w.renamed.chars := by
  have htake : w.chars.takeWhile isWordChar = w.chars := List.takeWhile_eq_self_iff.2 w.isWordChar
  have hdrop : w.chars.dropWhile isWordChar = [] := List.dropWhile_eq_nil_iff.2 w.isWordChar
  -- the rule takes a whole word or nothing of it
  by_cases ht : w.isText = true
  · have hfind : textAlias.find? false w.chars = some (AsciiWord.text.chars, []) := by
      have : w.chars = ['S', 't', 'r', 'i', 'n', 'g'] ∨ w.chars = ['s', 't', 'r'] := by
        simp only [AsciiWord.isText, Bool.or_eq_true, decide_eq_true_eq] at ht
        rcases ht with rfl | rfl
        · exact .inl rfl
        · exact .inr rfl
      simp only [textAlias, textWord?, htake, hdrop, if_pos this]
      rfl
    rw [Rule.apply, Rule.applyFrom_of_some hfind, Rule.applyFrom_nil, List.append_nil,
      AsciiWord.renamed, if_pos ht]
  · have hfind : textAlias.find? false (w.chars ++ []) = none := by
      have : ¬(w.chars = ['S', 't', 'r', 'i', 'n', 'g'] ∨ w.chars = ['s', 't', 'r']) := by
        rintro (h | h)
        · exact ht (by rw [AsciiWord.ext (v := .string) h]; rfl)
        · exact ht (by rw [AsciiWord.ext (v := .str) h]; rfl)
      simp only [textAlias, textWord?, List.append_nil, htake, if_neg this]
      rfl
    have := Rule.applyFrom_false_append (fun _ => rfl) w hfind
    rw [List.append_nil, Rule.applyFrom_nil, List.append_nil] at this
    rw [Rule.apply, this, AsciiWord.renamed, if_neg ht]

theorem textAlias_apply_digits (n : Numeral) : textAlias.apply n.digits = n.digits := by
  have := textAlias_apply_word n.word
  rwa [AsciiWord.renamed_eq_self (AsciiWord.isText_numeral n)] at this

namespace Phrase

/-- The words for text are renamed wherever they stand. -/
theorem textAlias_apply_print (t : Phrase) : textAlias.apply t.print = t.renamed.print := by
  have split : ∀ {c}, isMark c = true → SplitsAt c textAlias.apply :=
    fun hc => (textAlias_cuts (isWordChar_eq_false_of_isMark hc)).splitsAt
  have nil := textAlias.apply_nil
  induction t with
  | name w => exact textAlias_apply_word w
  | tuple ts ih =>
    have ih : ts.map (textAlias.apply ∘ print) = ts.map (print ∘ renamed) := List.map_congr_left ih
    rw [print, (split rfl).cons nil, (split rfl).concat nil,
      (split rfl).intercalate nil, renamed, print, printEach_eq_map, printEach_eq_map,
      renamedEach_eq_map, List.map_map, List.map_map, ih]
  | array t n ih =>
    rw [print, (split rfl).cons nil, split rfl, (split rfl).concat nil, ih,
      textAlias_apply_digits, renamed, print]
  | slice t ih =>
    rw [print, (split rfl).cons nil, (split rfl).concat nil, ih, renamed, print]
  | generic h ts ih =>
    have ih : ts.map (textAlias.apply ∘ print) = ts.map (print ∘ renamed) := List.map_congr_left ih
    rw [print, split rfl, (split rfl).concat nil,
      (split rfl).intercalate nil, textAlias_apply_word, renamed, print, printEach_eq_map,
      printEach_eq_map, renamedEach_eq_map, List.map_map, List.map_map, ih]

end Phrase

/-! ## Byte sequences -/

theorem bytesAlias_find?_eq_none {cs : List Char}
    (hv : ∀ tail, cs ≠ ['V', 'e', 'c'] ++ '<' :: (['u', '8'] ++ '>' :: tail))
    (hs : ∀ tail, cs ≠ '[' :: (['u', '8'] ++ ']' :: tail)) :
    bytesAlias.find? false cs = none := by
  have hv' : after? ['V', 'e', 'c', '<', 'u', '8', '>'] cs = none := by
    cases ha : after? ['V', 'e', 'c', '<', 'u', '8', '>'] cs with
    | none => rfl
    | some tail => exact absurd (after?_eq ha) (hv tail)
  have hs' : after? ['[', 'u', '8', ']'] cs = none := by
    cases ha : after? ['[', 'u', '8', ']'] cs with
    | none => rfl
    | some tail => exact absurd (after?_eq ha) (hs tail)
  simp [bytesAlias, byteSequence?, replaceFirst?, hv', hs']

theorem bytesAlias_cuts {c : Char} (hc : isWordChar c = false)
    (hv : c ∉ ['V', 'e', 'c', '<', 'u', '8', '>']) (hs : c ∉ ['[', 'u', '8', ']']) :
    bytesAlias.Cuts c where
  gap := hc
  first inWord cs := by
    cases inWord with
    | true => rfl
    | false =>
      refine bytesAlias_find?_eq_none ?_ ?_
      · rintro tail h
        exact hv (by rw [(List.cons.inj h).1]; decide)
      · rintro tail h
        exact hs (by rw [(List.cons.inj h).1]; decide)
  later inWord x xs ys := by
    cases inWord with
    | true => rfl
    | false =>
      simp only [bytesAlias, byteSequence?, replaceFirst?, List.findSome?_cons,
        after?_append_cons hv, after?_append_cons hs]
      cases after? ['V', 'e', 'c', '<', 'u', '8', '>'] (x :: xs) with
      | some tail => rfl
      | none => cases after? ['[', 'u', '8', ']'] (x :: xs) <;> rfl

theorem bytesAlias_applyFrom_cons {c : Char} (hv : c ≠ 'V') (hs : c ≠ '[') (inWord : Bool)
    (rest : List Char) :
    bytesAlias.applyFrom inWord (c :: rest) = c :: bytesAlias.applyFrom (isWordChar c) rest := by
  refine Rule.applyFrom_of_none ?_
  cases inWord with
  | true => rfl
  | false =>
    refine bytesAlias_find?_eq_none ?_ ?_
    · intro tail h
      exact hv (List.cons.inj h).1
    · intro tail h
      exact hs (List.cons.inj h).1

theorem bytesAlias_applyFrom_end {c : Char} (hc : isEnd c = true) (inWord : Bool)
    (rest : List Char) : bytesAlias.applyFrom inWord (c :: rest) = c :: bytesAlias.apply rest := by
  have hw := isWordChar_eq_false_of_isMark (isMark_of_isEnd hc)
  have hv : c ≠ 'V' := by rintro rfl; exact absurd hc (by decide)
  have hs : c ≠ '[' := by rintro rfl; exact absurd hc (by decide)
  rw [bytesAlias_applyFrom_cons hv hs, hw]
  rfl

namespace Phrase

/-- The text of a byte's name is that of no other phrase. -/
theorem isByte_of_print {t : Phrase} {c k : Char} {rest tail : List Char}
    (hc : isEnd c = true) (hk : isEnd k = true)
    (h : t.print ++ c :: rest = ['u', '8'] ++ k :: tail) : t.isByte = true ∧ c = k := by
  have hc' := isWordChar_eq_false_of_isMark (isMark_of_isEnd hc)
  have hk' := isWordChar_eq_false_of_isMark (isMark_of_isEnd hk)
  -- only a name and a generic type start with a word, and the latter is not over at its word
  cases t with
  | name w =>
    obtain ⟨hw, hck, -⟩ := append_cons_inj w.isWordChar AsciiWord.u8.isWordChar hc' hk' h
    exact ⟨decide_eq_true (AsciiWord.ext hw), hck⟩
  | tuple ts => exact absurd (List.cons.inj h).1 (by decide)
  | array t n => exact absurd (List.cons.inj h).1 (by decide)
  | slice t => exact absurd (List.cons.inj h).1 (by decide)
  | generic w ts =>
    rw [print, List.append_assoc, List.cons_append] at h
    obtain ⟨-, hck, -⟩ :=
      append_cons_inj w.isWordChar AsciiWord.u8.isWordChar rfl hk' h
    rw [← hck] at hk
    exact absurd hk (by decide)

theorem eq_of_isByte {t : Phrase} (h : t.isByte = true) : t = .name .u8 := by
  cases t with
  | name w => rw [of_decide_eq_true h]
  | _ => exact absurd h (by simp [isByte])

/-- A reader of the byte sequence rule goes over the phrase, packs it and stops at what ends it. -/
def PacksBefore (t : Phrase) : Prop :=
  ∀ c rest, isEnd c = true →
    bytesAlias.apply (t.print ++ c :: rest) = t.packed.print ++ c :: bytesAlias.apply rest

theorem areByte_of_joined {ts : List Phrase} {c : Char} {rest tail : List Char}
    (hc : isEnd c = true) (h : joined ts ++ c :: rest = ['u', '8'] ++ '>' :: tail) :
    areByte ts = true := by
  cases ts with
  | nil =>
    rw [joined_nil, List.nil_append] at h
    rw [(List.cons.inj h).1] at hc
    exact absurd hc (by decide)
  | cons t ts =>
    cases ts with
    | nil =>
      rw [joined_singleton] at h
      exact (isByte_of_print hc rfl h).1
    | cons u us =>
      rw [joined_cons_cons, List.append_assoc, List.cons_append] at h
      exact absurd (isByte_of_print rfl rfl h).2 (by decide)

theorem eq_of_areByte {ts : List Phrase} (h : areByte ts = true) : ts = [.name .u8] := by
  match ts, h with
  | [t], h => rw [eq_of_isByte h]

theorem packsBefore_name (w : AsciiWord) : (name w).PacksBefore := by
  intro c rest hc
  have hw := isWordChar_eq_false_of_isMark (isMark_of_isEnd hc)
  have hnone : bytesAlias.find? false (w.chars ++ c :: rest) = none := by
    refine bytesAlias_find?_eq_none ?_ ?_
    · -- behind the word of a vector there would be an angle bracket, which ends nothing
      intro tail h
      obtain ⟨-, hck, -⟩ := append_cons_inj w.isWordChar AsciiWord.vec.isWordChar hw rfl h
      rw [hck] at hc
      exact absurd hc (by decide)
    · intro tail h
      exact w.append_ne_cons rfl h
  rw [print, packed, print, Rule.apply, Rule.applyFrom_false_append (fun _ => rfl) w hnone,
    bytesAlias_applyFrom_end hc]

theorem bytesAlias_apply_joined {ts : List Phrase} (h : ∀ t ∈ ts, t.PacksBefore) {c : Char}
    (hc : isEnd c = true) (rest : List Char) :
    bytesAlias.apply (joined ts ++ c :: rest) =
      joined (ts.map packed) ++ c :: bytesAlias.apply rest := by
  induction ts with
  | nil => exact bytesAlias_applyFrom_end hc false rest
  | cons t ts ih =>
    have ht := h t (by simp)
    cases ts with
    | nil => simpa using ht c rest hc
    | cons u us =>
      have hus := ih fun v hv => h v (List.mem_cons_of_mem _ hv)
      rw [joined_cons_cons, List.append_assoc, List.cons_append, ht ',' _ rfl, hus]
      simp

theorem packsBefore (t : Phrase) : t.PacksBefore := by
  induction t with
  | name w => exact packsBefore_name w
  | tuple ts ih =>
    intro c rest hc
    have hts := bytesAlias_apply_joined ih (c := ')') rfl (c :: rest)
    simp only [print, packed, packedEach_eq_map, List.cons_append, List.append_assoc,
      List.nil_append]
    rw [Rule.apply, bytesAlias_applyFrom_cons (by decide) (by decide)]
    refine congrArg ('(' :: ·) (hts.trans ?_)
    rw [Rule.apply, bytesAlias_applyFrom_end hc]
    rfl
  | array t n ih =>
    intro c rest hc
    have hn := packsBefore_name n.word ']' (c :: rest) rfl
    -- a slice of bytes would be over where the array has its semicolon
    have hnone : bytesAlias.find? false
        ('[' :: (t.print ++ ';' :: (n.digits ++ ']' :: c :: rest))) = none := by
      refine bytesAlias_find?_eq_none (fun tail h => absurd (List.cons.inj h).1 (by decide)) ?_
      intro tail h
      exact absurd (isByte_of_print rfl rfl (List.cons.inj h).2).2 (by decide)
    simp only [print, packed, List.cons_append, List.append_assoc, List.nil_append]
    rw [Rule.apply, Rule.applyFrom_of_none hnone]
    refine congrArg ('[' :: ·) ((ih ';' _ rfl).trans ?_)
    refine congrArg (fun tail => t.packed.print ++ ';' :: tail) (hn.trans ?_)
    rw [Rule.apply, bytesAlias_applyFrom_end hc]
    rfl
  | slice t ih =>
    intro c rest hc
    by_cases ht : t.isByte = true
    · -- the whole slice is one piece
      obtain rfl := eq_of_isByte ht
      have hsome : bytesAlias.find? false ('[' :: 'u' :: '8' :: ']' :: c :: rest) =
        some (AsciiWord.bytes.chars, c :: rest) := rfl
      refine (Rule.applyFrom_of_some hsome).trans ?_
      rw [bytesAlias_applyFrom_end hc]
      rfl
    · have hnone : bytesAlias.find? false ('[' :: (t.print ++ ']' :: c :: rest)) = none := by
        refine bytesAlias_find?_eq_none (fun tail h => absurd (List.cons.inj h).1 (by decide)) ?_
        intro tail h
        exact ht (isByte_of_print rfl rfl (List.cons.inj h).2).1
      rw [packed, if_neg ht]
      simp only [print, List.cons_append, List.append_assoc, List.nil_append]
      rw [Rule.apply, Rule.applyFrom_of_none hnone]
      refine congrArg ('[' :: ·) ((ih ']' _ rfl).trans ?_)
      rw [Rule.apply, bytesAlias_applyFrom_end hc]
  | generic h ts ih =>
    intro c rest hc
    by_cases hb : h = .vec ∧ areByte ts = true
    · -- the whole vector is one piece
      obtain ⟨rfl, hts⟩ := hb
      obtain rfl := eq_of_areByte hts
      have hsome : bytesAlias.find? false
          ('V' :: 'e' :: 'c' :: '<' :: 'u' :: '8' :: '>' :: c :: rest) =
          some (AsciiWord.bytes.chars, c :: rest) := rfl
      refine (Rule.applyFrom_of_some hsome).trans ?_
      rw [bytesAlias_applyFrom_end hc]
      rfl
    · have hnone : bytesAlias.find? false (h.chars ++ '<' :: (joined ts ++ '>' :: c :: rest)) =
          none := by
        refine bytesAlias_find?_eq_none ?_ ?_
        · intro tail he
          obtain ⟨hv, -, he⟩ :=
            append_cons_inj h.isWordChar AsciiWord.vec.isWordChar rfl rfl he
          exact hb ⟨AsciiWord.ext hv, areByte_of_joined rfl he⟩
        · intro tail he
          exact h.append_ne_cons rfl he
      have hts := bytesAlias_apply_joined ih (c := '>') rfl (c :: rest)
      rw [packed, if_neg hb]
      simp only [print, packedEach_eq_map, List.cons_append, List.append_assoc, List.nil_append]
      rw [Rule.apply]
      refine (Rule.applyFrom_false_append (fun _ => rfl) h hnone).trans ?_
      refine congrArg (h.chars ++ ·) ?_
      rw [bytesAlias_applyFrom_cons (by decide) (by decide)]
      refine congrArg ('<' :: ·) (hts.trans ?_)
      rw [Rule.apply, bytesAlias_applyFrom_end hc]
      rfl

/-- Every vector and every slice of bytes is renamed. -/
theorem bytesAlias_apply_print (t : Phrase) : bytesAlias.apply t.print = t.packed.print := by
  -- the invariant speaks of what stands in front of an end: a comma is put behind and taken off
  have h := t.packsBefore ',' [] rfl
  rw [(bytesAlias_cuts rfl (by decide) (by decide)).splitsAt] at h
  exact List.append_cancel_right h

end Phrase

namespace Phrase

/-! ## The sum of the passes -/

theorem Proper.renamed {t : Phrase} (h : t.Proper) : t.renamed.Proper := by
  induction h with
  | name w => exact .name _
  | tuple hn _ ih =>
    rw [Phrase.renamed, renamedEach_eq_map]
    exact .tuple (by simpa using hn) (by simpa using ih)
  | array n _ ih => exact .array n ih
  | slice _ ih => exact .slice ih
  | @generic h ts hb _ ih =>
    rw [Phrase.renamed, renamedEach_eq_map]
    refine .generic ?_ (by simpa using ih)
    -- no word is renamed to that of a box
    rw [AsciiWord.renamed]
    split
    · decide
    · exact hb

theorem Proper.packed {t : Phrase} (h : t.Proper) : t.packed.Proper := by
  induction h with
  | name w => exact .name _
  | tuple hn _ ih =>
    rw [Phrase.packed, packedEach_eq_map]
    exact .tuple (by simpa using hn) (by simpa using ih)
  | array n _ ih => exact .array n ih
  | slice _ ih =>
    rw [Phrase.packed]
    split
    · exact .name _
    · exact .slice ih
  | generic hb _ ih =>
    rw [Phrase.packed, packedEach_eq_map]
    split
    · exact .name _
    · exact .generic hb (by simpa using ih)

/-- What the passes behind the removal of blanks make of a phrase. -/
theorem Unboxed.tidy_print {t : Phrase} (h : t.Unboxed) :
    flatten (bytesAlias.apply (textAlias.apply (unbox t.print))) = t.aliased.bared.print := by
  rw [h.unbox_print, textAlias_apply_print, bytesAlias_apply_print, flatten_print, aliased]

theorem Proper.bared_aliased {t : Phrase} (h : t.Proper) : t.aliased.bared = t.aliased :=
  bared_eq_self_of_once h.renamed.packed.once_eq_self

theorem Proper.tidy_print {t : Phrase} (h : t.Proper) :
    flatten (bytesAlias.apply (textAlias.apply (unbox t.print))) = t.aliased.print := by
  rw [h.unboxed.tidy_print, h.bared_aliased]

theorem mem_joined {c : Char} {ts : List Phrase} (h : c ∈ joined ts) :
    c = ',' ∨ ∃ t ∈ ts, c ∈ t.print := by
  induction ts with
  | nil => exact absurd h List.not_mem_nil
  | cons t ts ih =>
    cases ts with
    | nil => exact .inr ⟨t, by simp, by simpa using h⟩
    | cons u us =>
      rw [joined_cons_cons, List.mem_append, List.mem_cons] at h
      rcases h with h | h | h
      · exact .inr ⟨t, by simp, h⟩
      · exact .inl h
      · refine (ih h).imp_right ?_
        rintro ⟨v, hv, hc⟩
        exact ⟨v, List.mem_cons_of_mem _ hv, hc⟩

/-- A mark that the grammar of phrases does not use is in no text of a phrase. -/
theorem not_mem_print {c : Char} (hw : isWordChar c = false)
    (hc : c ∉ ['(', ')', '[', ']', '<', '>', ',', ';']) (t : Phrase) : c ∉ t.print := by
  have hjoined : ∀ {ts : List Phrase}, (∀ t ∈ ts, c ∉ t.print) →
      c ∉ [','].intercalate (printEach ts) := by
    intro ts h hm
    rcases mem_joined hm with rfl | ⟨t, ht, hm⟩
    · exact hc (by decide)
    · exact h t ht hm
  simp only [List.mem_cons, List.not_mem_nil, or_false, not_or] at hc
  induction t with
  | name w => exact w.not_mem_chars hw
  | tuple ts ih =>
    have hts := hjoined ih
    simpa [print, hc] using hts
  | array t n ih =>
    have hn : c ∉ n.digits := n.word.not_mem_chars hw
    simpa [print, hc, ih] using hn
  | slice t ih => simpa [print, hc] using ih
  | generic h ts ih =>
    have hts := hjoined ih
    simpa [print, hc, h.not_mem_chars hw] using hts

/-- The text of a phrase holds no blanks. -/
theorem filter_print (t : Phrase) : t.print.filter (!isBlank ·) = t.print := by
  rw [List.filter_eq_self]
  intro c hc
  cases hb : isBlank c with
  | false => rfl
  | true =>
    refine absurd hc (t.not_mem_print (isWordChar_eq_false_of_isBlank hb) ?_)
    intro hm
    have hmarks : ['(', ')', '[', ']', '<', '>', ',', ';'].all isMark = true := by decide
    have hnot := isBlank_eq_false_of_isMark (List.all_eq_true.1 hmarks c hm)
    rw [hb] at hnot
    exact Bool.noConfusion hnot

/-- The normal spelling of a text that is a phrase but for blanks. -/
theorem Unboxed.normalize_of_filter {t : Phrase} (h : t.Unboxed) {cs : List Char}
    (hcs : cs.filter (!isBlank ·) = t.print) : normalize cs = t.aliased.bared.print := by
  have hmem : ∀ {c}, isBlank c = false → c ∉ t.print → c ∉ cs := by
    intro c hb hc hm
    refine hc ?_
    rw [← hcs, List.mem_filter]
    exact ⟨hm, by rw [hb]; rfl⟩
  have hcolon : ':' ∉ cs := hmem rfl (t.not_mem_print rfl (by decide))
  have hamp : '&' ∉ cs := hmem rfl (t.not_mem_print rfl (by decide))
  rw [normalize, projection_apply_eq_self (Quiet.of_colon_not_mem hcolon).chain,
    path_apply_eq_self hcolon, reference_apply_eq_self hamp, hcs, h.tidy_print]

theorem Proper.normalize_of_filter {t : Phrase} (h : t.Proper) {cs : List Char}
    (hcs : cs.filter (!isBlank ·) = t.print) : normalize cs = t.aliased.print := by
  rw [h.unboxed.normalize_of_filter hcs, h.bared_aliased]

/-- The normal spelling of a text that is a phrase once its boxes are open. -/
theorem Proper.normalize_of_unbox {t : Phrase} (h : t.Proper) {cs : List Char}
    (hcs : unbox (uncover (path.apply (projection.apply cs))) = t.print) :
    normalize cs = t.aliased.print := by
  rw [← h.tidy_print, h.unbox_print, ← hcs]
  rfl

end Phrase

/-- The passes up to the boxes leave the phrase without decorations. -/
theorem Decorated.unbox_uncover_print (d : Decorated) :
    unbox (uncover (path.apply (projection.apply d.print))) = d.strip.print := by
  rw [projection_apply_eq_self d.quiet_print.chain, d.path_apply_print, d.uncover_print,
    d.unbox_boxed]

/-- The normal spelling of a decorated text is the phrase without decorations, with names for
texts and byte sequences. -/
theorem Decorated.normalize_print (d : Decorated) :
    normalize d.print = d.strip.aliased.print := by
  have hprojection : projection.apply d.print = d.print :=
    projection_apply_eq_self d.quiet_print.chain
  have huncover : (Spelling.reference.apply (path.apply (projection.apply d.print))).filter
      (!isBlank ·) = d.boxed.print := by
    rw [hprojection, d.path_apply_print]
    exact d.uncover_print
  rw [normalize, huncover, d.unbox_boxed, ← d.proper_strip.tidy_print, d.proper_strip.unbox_print]

end ChainTypings.Spelling
