import ChainTypings.Document.Declaration
import ChainTypings.Document.Source
import ChainTypings.Import.Lines

/-!
# Paragraphs of a document

A document is its title, its import lines and its blocks, with a blank line between any two of these
paragraphs (`Source.assemble_eq`): nothing but line breaks is cut off at its end, and no import line
and no block ends in one. So each import line is a line of the text and each block a paragraph of it
(`Source.Holds`).
-/

namespace ChainTypings

namespace Source

variable {imports blocks : List String}

/-! ## Line breaks at the end -/

/-- The text ends in a character that is no line break. -/
def Ends (text : String) : Prop := ∃ cs c, text.toList = cs ++ [c] ∧ c ≠ '\n'

theorem Ends.append {text : String} (h : Ends text) (front : String) : Ends (front ++ text) := by
  obtain ⟨cs, c, htext, hc⟩ := h
  exact ⟨front.toList ++ cs, c, by simp [htext], hc⟩

/-- Texts in a row end as the last of them does. -/
theorem Ends.intercalate {last : String} (h : Ends last) (sep : String) (front : List String) :
    Ends (sep.intercalate (front ++ [last])) := by
  cases front with
  | nil => simpa using h
  | cons text rest =>
    rw [String.intercalate_append_of_ne_nil (List.cons_ne_nil _ _) (List.cons_ne_nil _ _),
      String.intercalate_singleton]
    exact h.append _

theorem ends_intercalate (sep : String) {texts : List String} (hne : texts ≠ [])
    (h : ∀ text ∈ texts, Ends text) : Ends (sep.intercalate texts) := by
  obtain ⟨front, last, rfl⟩ := (List.eq_nil_or_concat texts).resolve_left hne
  rw [List.concat_eq_append] at h ⊢
  exact (h last (by simp)).intercalate sep front

/-- Only the line breaks behind the last other character are taken away. -/
theorem chompAll_append {text : String} (h : Ends text) {breaks : List Char}
    (hbreaks : ∀ c ∈ breaks, c = '\n') : chompAll (text.toList ++ breaks) = text.toList := by
  obtain ⟨cs, c, htext, hc⟩ := h
  have hreverse : ∀ c ∈ breaks.reverse, decide (c = '\n') = true := by
    intro c hmem
    exact decide_eq_true (hbreaks c (List.mem_reverse.1 hmem))
  rw [chompAll, List.reverse_append, List.dropWhile_append_of_pos hreverse, htext]
  simp [hc]

/-! ## Paragraphs -/

/-- The first paragraph of every document. -/
def title : String := "// Auto-generated via `typegen`, do not edit\n/* eslint-disable */"

/-- The paragraphs of a document: the title, the import lines, if there are any, and the blocks. -/
def paragraphs (imports blocks : List String) : List String :=
  title :: ((if imports.isEmpty then [] else [String.intercalate "\n" imports]) ++ blocks)

theorem paragraphs_ne_nil : paragraphs imports blocks ≠ [] := List.cons_ne_nil _ _

theorem ends_of_mem_paragraphs (himports : ∀ line ∈ imports, Ends line)
    (hblocks : ∀ block ∈ blocks, Ends block) {text : String}
    (htext : text ∈ paragraphs imports blocks) : Ends text := by
  rcases List.mem_cons.1 htext with rfl | htext
  · exact ⟨title.toList.dropLast, '/', by decide, by decide⟩
  rcases List.mem_append.1 htext with htext | htext
  · split at htext
    · cases htext
    · next hne =>
      obtain rfl := List.mem_singleton.1 htext
      exact ends_intercalate "\n" (mt List.isEmpty_iff.2 hne) himports
  · exact hblocks text htext

/-- A document is its paragraphs with a blank line between, and a line break behind the last. -/
theorem assemble_eq (himports : ∀ line ∈ imports, Ends line)
    (hblocks : ∀ block ∈ blocks, Ends block) :
    assemble imports blocks = String.intercalate "\n\n" (paragraphs imports blocks) ++ "\n" := by
  have hends : Ends (String.intercalate "\n\n" (paragraphs imports blocks)) :=
    ends_intercalate "\n\n" paragraphs_ne_nil fun _ h => ends_of_mem_paragraphs himports hblocks h
  -- without a block the document is put together with a blank line behind its last paragraph
  have htext : header ++ (if imports.isEmpty then "" else String.intercalate "\n" imports ++ "\n\n")
      ++ String.intercalate "\n\n" blocks =
        String.intercalate "\n\n" (paragraphs imports blocks) ++
          if blocks.isEmpty then "\n\n" else "" := by
    have hheader : header = title ++ "\n\n" := by decide
    cases imports <;> cases blocks <;>
      simp [paragraphs, hheader, String.append_assoc]
  simp only [assemble, htext, String.toList_append]
  rw [chompAll_append hends (by split <;> simp)]
  apply String.toList_injective
  simp

/-! ## What a document holds -/

/-- The text is a document of the lines and the blocks: it is laid out in their paragraphs, so that
each of the lines stands in it between two line breaks, and each block between a blank line and a
line break. -/
structure Holds (text : String) (imports blocks : List String) : Prop where
  laid : text = String.intercalate "\n\n" (paragraphs imports blocks) ++ "\n"
  line : ∀ line ∈ imports, ∃ before after, text = before ++ "\n" ++ line ++ "\n" ++ after
  block : ∀ block ∈ blocks, ∃ before after, text = before ++ "\n\n" ++ block ++ "\n" ++ after

/-- A text behind a separator that starts with a line break has one behind it too, which is that of
the next separator or of the end. -/
theorem exists_of_mem_join {texts : List String} {text : String} (h : text ∈ texts)
    {sep front : String} (hsep : sep = "\n" ++ front) : ∃ before after,
      String.join (texts.map (sep ++ ·)) ++ "\n" = before ++ sep ++ text ++ "\n" ++ after := by
  obtain ⟨texts₁, texts₂, rfl⟩ := List.append_of_mem h
  have hbreak : ∃ after, String.join (texts₂.map (sep ++ ·)) ++ "\n" = "\n" ++ after := by
    cases texts₂ with
    | nil => exact ⟨"", by simp⟩
    | cons next rest =>
      refine ⟨front ++ next ++ String.join (rest.map (sep ++ ·)) ++ "\n", ?_⟩
      simp [hsep, String.append_assoc]
  obtain ⟨after, hafter⟩ := hbreak
  refine ⟨String.join (texts₁.map (sep ++ ·)), after, ?_⟩
  simp only [List.map_append, List.map_cons, String.join_append, String.join_cons,
    String.append_assoc] at hafter ⊢
  rw [hafter]

theorem intercalate_cons (sep text : String) (texts : List String) :
    sep.intercalate (text :: texts) = text ++ String.join (texts.map (sep ++ ·)) := by
  induction texts generalizing text with
  | nil => simp
  | cons next rest ih =>
    rw [String.intercalate_cons_cons, ih, List.map_cons, String.join_cons]
    simp only [String.append_assoc]

/-- Every paragraph but the title stands behind a blank line. -/
theorem exists_of_mem_paragraphs {text : String} (h : text ∈ (paragraphs imports blocks).tail) :
    ∃ before after, String.intercalate "\n\n" (paragraphs imports blocks) ++ "\n" =
      before ++ "\n\n" ++ text ++ "\n" ++ after := by
  obtain ⟨before, after, hjoin⟩ := exists_of_mem_join h (show "\n\n" = "\n" ++ "\n" by decide)
  refine ⟨title ++ before, after, ?_⟩
  rw [paragraphs, intercalate_cons, String.append_assoc]
  exact (congrArg (title ++ ·) hjoin).trans (by simp only [String.append_assoc])

/-- Every import line stands in the paragraph of the import lines, between two line breaks. -/
theorem exists_of_mem_imports {line : String} (h : line ∈ imports) : ∃ before after,
    "\n" ++ String.intercalate "\n" imports ++ "\n" = before ++ "\n" ++ line ++ "\n" ++ after := by
  obtain ⟨first, rest, rfl⟩ := List.exists_cons_of_ne_nil (List.ne_nil_of_mem h)
  have hjoin : "\n" ++ String.intercalate "\n" (first :: rest) =
      String.join ((first :: rest).map ("\n" ++ ·)) := by
    rw [intercalate_cons, List.map_cons, String.join_cons, String.append_assoc]
  rw [hjoin]
  exact exists_of_mem_join h (show "\n" = "\n" ++ "" by decide)

theorem holds_assemble (himports : ∀ line ∈ imports, Ends line)
    (hblocks : ∀ block ∈ blocks, Ends block) : Holds (assemble imports blocks) imports blocks := by
  have hlaid := assemble_eq himports hblocks
  refine ⟨hlaid, fun line hline => ?_, fun block hblock => ?_⟩
  · have hmem : String.intercalate "\n" imports ∈ (paragraphs imports blocks).tail := by
      simp [paragraphs, List.ne_nil_of_mem hline]
    obtain ⟨before, after, hparagraph⟩ := exists_of_mem_paragraphs hmem
    obtain ⟨before', after', hline'⟩ := exists_of_mem_imports hline
    refine ⟨before ++ "\n" ++ before', after' ++ after, ?_⟩
    have hbreaks : "\n\n" = "\n" ++ "\n" := by decide
    calc assemble imports blocks
      _ = before ++ "\n" ++ ("\n" ++ String.intercalate "\n" imports ++ "\n") ++ after := by
        rw [hlaid, hparagraph, hbreaks]
        simp only [String.append_assoc]
      _ = before ++ "\n" ++ before' ++ "\n" ++ line ++ "\n" ++ (after' ++ after) := by
        rw [hline']
        simp only [String.append_assoc]
  · rw [hlaid]
    exact exists_of_mem_paragraphs (by simp [paragraphs, hblock])

end Source

/-! ## Lines and blocks -/

theorem ImportDef.ends_line (d : ImportDef) : Source.Ends d.line :=
  Source.Ends.append ⟨['\''], ';', rfl, by decide⟩ _

theorem Declaration.ends_print (d : Declaration) : Source.Ends d.print :=
  Source.Ends.append ⟨[], '\x7d', rfl, by decide⟩ _

end ChainTypings
