import ChainTypings.Document.Errors
import ChainTypings.Proofs.Document.Paragraphs
import ChainTypings.Proofs.Text.Stripping
import Mathlib.Data.List.Forall2

/-!
# The lines of the errors document

The errors document is a preamble, the same for all, and lines with a line break behind each
(`source_eq`). The lines write the modules, in order: the line that opens a module, each of its
errors behind the comment of its documentation, and the line that closes it (`writesDocument_iff`).
A document that is not strict has the four lines of the member for errors not known by name in front
of the line that closes a module, and is the strict document otherwise (`documentLines_false`).
-/

namespace ChainTypings.ErrorModule

/-! ## The text -/

/-- What stands in front of the lines: the header and the one import. -/
def preamble : String :=
  Source.header ++ "import type \x7b ApiTypes \x7d from '@polkadot/api/types';\n\n"

/-- Lines with a line break behind each. -/
def written (lines : List String) : String := String.join (lines.map (· ++ "\n"))

@[simp] theorem written_append (xs ys : List String) :
    written (xs ++ ys) = written xs ++ written ys := by
  simp [written]

@[simp] theorem written_cons (line : String) (lines : List String) :
    written (line :: lines) = line ++ "\n" ++ written lines := by
  simp [written]

@[simp] theorem written_nil : written [] = "" := rfl

theorem intercalate_eq_written {lines : List String} (h : lines ≠ []) :
    String.intercalate "\n" lines ++ "\n" = written lines := by
  induction lines with
  | nil => exact absurd rfl h
  | cons line lines ih =>
    cases lines with
    | nil => simp
    | cons next lines =>
      rw [written_cons, ← ih (List.cons_ne_nil _ _), String.intercalate_cons_cons]
      simp only [String.append_assoc]

/-- The one import of the document. -/
theorem lines_imports : ImportDef.lines (Ledger.empty [] []) [⟨ImportDef.apiModule, ["ApiTypes"]⟩] =
    ["import type \x7b ApiTypes \x7d from '@polkadot/api/types';"] := by
  -- nothing is recorded, so that no other group has a line
  have hgroups : (ImportDef.collect (Ledger.empty [] [])
      [⟨ImportDef.apiModule, ["ApiTypes"]⟩]).filter (!·.names.isEmpty) =
        [⟨ImportDef.apiModule, ["ApiTypes"]⟩] :=
    List.perm_singleton.1 ((List.mergeSort_perm _ _).filter _)
  have hline : ImportDef.line ⟨ImportDef.apiModule, ["ApiTypes"]⟩ =
      "import type \x7b ApiTypes \x7d from '@polkadot/api/types';" := by
    have hnames : ImportDef.sortTexts ["ApiTypes"].eraseDups = ["ApiTypes"] :=
      List.mergeSort_singleton _
    have hwritten (names : List String) : ImportDef.line ⟨ImportDef.apiModule, names⟩ =
        "import type \x7b " ++ String.intercalate ", " (ImportDef.sortTexts names.eraseDups) ++
          " \x7d from '" ++ ImportDef.apiModule ++ "';" := rfl
    refine (hwritten _).trans (hnames ▸ ?_)
    decide +kernel
  exact (congrArg (List.map ImportDef.line) hgroups).trans (congrArg (fun line => [line]) hline)

/-- The lines of a document without the last one. -/
theorem exists_documentLines_eq (strict : Bool) (ms : List ErrorModule) :
    ∃ front, front ≠ [] ∧ documentLines strict ms = front ++ ["\x7d // declare module"] := by
  refine ⟨["declare module '@polkadot/api/types/errors' \x7b",
    "  export interface AugmentedErrors<ApiType extends ApiTypes> \x7b"] ++
      ms.flatMap (lines strict) ++ ["  \x7d // AugmentedErrors"], by simp, ?_⟩
  simp [documentLines]

/-- The text of the errors document is its lines behind the preamble. -/
theorem source_eq (strict : Bool) (ms : List ErrorModule) :
    source strict ms = preamble ++ written (documentLines strict ms) := by
  obtain ⟨front, hfront, hlines⟩ := exists_documentLines_eq strict ms
  have hends : Source.Ends (String.intercalate "\n" (documentLines strict ms)) := by
    rw [hlines]
    have hlast : Source.Ends "\x7d // declare module" :=
      ⟨"\x7d // declare modul".toList, 'e', by decide, by decide⟩
    exact hlast.intercalate "\n" front
  have himport : Source.Ends "import type \x7b ApiTypes \x7d from '@polkadot/api/types';" :=
    ⟨"import type \x7b ApiTypes \x7d from '@polkadot/api/types'".toList, ';', rfl, by decide⟩
  have hpreamble : preamble = Source.title ++ "\n\n" ++
      "import type \x7b ApiTypes \x7d from '@polkadot/api/types';" ++ "\n\n" := by decide +kernel
  have hne : documentLines strict ms ≠ [] := by simp [hlines]
  rw [source, lines_imports, Source.assemble_eq (by simpa using himport) (by simpa using hends),
    ← intercalate_eq_written hne, hpreamble]
  simp only [Source.paragraphs, List.isEmpty_cons, Bool.false_eq_true, if_false,
    List.cons_append, List.nil_append, String.intercalate_cons_cons, String.intercalate_singleton,
    String.append_assoc]

/-! ## Documentation lines -/

/-- A documentation line is set off by a star, and by a blank too if there is any text. -/
theorem toList_docLine (line : String) :
    (docLine line).toList = "       *".toList ++
      if Text.strip line.toList = [] then [] else ' ' :: Text.strip line.toList := by
  have hsplit : "       * ".toList ++ Text.strip line.toList =
      "       *".toList ++ ([' '] ++ Text.strip line.toList) := rfl
  rw [docLine, String.toList_ofList, hsplit, Text.stripEnd_append,
    Text.stripEnd_append, Text.stripEnd_strip]
  by_cases h : Text.strip line.toList = []
  · rw [if_pos h, if_pos h]
    decide
  · simp [h]

/-! ## The member for errors not known by name -/

/-- The line that closes a module. -/
def closing : String := "    \x7d;"

/-- The lines of the member for errors not known by name. -/
def genericMember : List String :=
  ["      /**", "       * Generic error", "       **/",
   "      [key: string]: AugmentedError<ApiType>;"]

/-- A line, behind those of the member for errors not known by name if it closes a module. -/
def withGeneric (line : String) : List String :=
  if line = closing then genericMember ++ [line] else [line]

theorem docLine_ne_closing (line : String) : docLine line ≠ closing := by
  intro h
  have hstar := congrArg (·.toList[7]?) h
  simp only [toList_docLine] at hstar
  exact absurd hstar (by simp [closing])

theorem closing_not_mem_memberLines (key : String) (docs : List String) :
    closing ∉ memberLines key docs := by
  have hblock : closing ∉ docBlock docs := by
    unfold docBlock
    split
    · exact List.not_mem_nil
    · simp only [List.mem_append, List.mem_cons, List.mem_map, List.not_mem_nil, or_false, not_or]
      exact ⟨⟨by decide, fun ⟨line, _, h⟩ => docLine_ne_closing line h⟩, by decide⟩
  have hmember : closing ≠ "      " ++ key ++ ": AugmentedError<ApiType>;" := by
    intro h
    have hlength := congrArg String.length h
    simp only [String.length_append] at hlength
    have : closing.length = 6 := by decide
    have : "      ".length = 6 := by decide
    have : ": AugmentedError<ApiType>;".length = 26 := by decide
    omega
  simp only [memberLines, List.mem_append, List.mem_singleton, not_or]
  exact ⟨hblock, hmember⟩

/-- The lines of a module up to the one that closes it. -/
def opened (m : ErrorModule) : List String :=
  ("    " ++ m.name ++ ": \x7b") :: m.items.flatMap fun i => memberLines i.name i.docs

theorem closing_not_mem_opened (m : ErrorModule) : closing ∉ m.opened := by
  have hname : closing ≠ "    " ++ m.name ++ ": \x7b" := by
    intro h
    have hlast := congrArg (·.toList.getLast?) h
    have hbrace : (": \x7b".toList).getLast? = some '\x7b' := by decide
    rw [String.toList_append, List.getLast?_append, hbrace, Option.some_or] at hlast
    exact absurd hlast (by decide)
  simp only [opened, List.mem_cons, List.mem_flatMap, not_or, not_exists, not_and]
  exact ⟨hname, fun i _ => closing_not_mem_memberLines i.name i.docs⟩

theorem lines_true (m : ErrorModule) : m.lines true = m.opened ++ [closing] := by
  simp [lines, opened, closing]

theorem lines_false (m : ErrorModule) : m.lines false = m.opened ++ genericMember ++ [closing] := by
  have hgeneric : genericLines = genericMember := by decide
  simp [lines, opened, closing, hgeneric]

/-- Lines of which none closes a module stay as they are. -/
theorem flatMap_withGeneric {lines : List String} (h : closing ∉ lines) :
    lines.flatMap withGeneric = lines := by
  have hline : ∀ line ∈ lines, withGeneric line = [line] := by
    intro line hmem
    rw [withGeneric, if_neg]
    rintro rfl
    exact h hmem
  rw [List.flatMap_congr hline, List.flatMap_singleton']

/-- A document that is not strict is the strict one with the member for errors not known by name in
front of each line that closes a module. -/
theorem documentLines_false (ms : List ErrorModule) :
    documentLines false ms = (documentLines true ms).flatMap withGeneric := by
  have hmodules : (ms.flatMap (lines true)).flatMap withGeneric = ms.flatMap (lines false) := by
    rw [List.flatMap_assoc]
    refine List.flatMap_congr fun m _ => ?_
    rw [lines_true, lines_false, List.flatMap_append,
      flatMap_withGeneric m.closing_not_mem_opened, List.append_assoc]
    rfl
  simp only [documentLines, List.flatMap_append]
  rw [hmodules, flatMap_withGeneric (by decide), flatMap_withGeneric (by decide)]

/-- As many lines close a module as there are modules. -/
theorem count_closing (ms : List ErrorModule) :
    (documentLines true ms).count closing = ms.length := by
  have hmodules : (ms.flatMap (lines true)).count closing = ms.length := by
    induction ms with
    | nil => rfl
    | cons m ms ih =>
      rw [List.flatMap_cons, List.count_append, ih, lines_true, List.count_append,
        List.count_eq_zero.2 m.closing_not_mem_opened, List.length_cons]
      simp [Nat.add_comm]
  simp only [documentLines, List.count_append]
  rw [hmodules, List.count_eq_zero.2 (by decide), List.count_eq_zero.2 (by decide)]
  omega

/-! ## What the lines tell -/

/-- A documentation text is written behind a star, without the blanks at its ends. If nothing else is
left of it, the star stands alone. -/
def WritesText (text line : String) : Prop :=
  ∃ kept, Text.Trims text.toList kept ∧
    line.toList = "       *".toList ++ if kept = [] then [] else ' ' :: kept

/-- Documentation is written as a comment with a line for each of its texts, in order. There is no
comment without a text. -/
inductive WritesDocs : List String → List String → Prop
  | none : WritesDocs [] []
  | comment {docs ls : List String} (hdocs : docs ≠ []) (h : List.Forall₂ WritesText docs ls) :
    WritesDocs docs ("      /**" :: ls ++ ["       **/"])

/-- An error is written as its documentation and the line of its member. -/
inductive WritesItem (i : ErrorItem) : List String → Prop
  | member {comment : List String} (h : WritesDocs i.docs comment) :
    WritesItem i (comment ++ ["      " ++ i.name ++ ": AugmentedError<ApiType>;"])

/-- A module is written as its errors, in order, between the line with its name and the one that
closes it. -/
inductive WritesModule (m : ErrorModule) : List String → Prop
  | between {members : List (List String)} (h : List.Forall₂ WritesItem m.items members) :
    WritesModule m (("    " ++ m.name ++ ": \x7b") :: members.flatten ++ ["    \x7d;"])

/-- A strict document is written as its modules, in order, between the lines that open and close the
declaration. -/
inductive WritesDocument (ms : List ErrorModule) : List String → Prop
  | between {modules : List (List String)} (h : List.Forall₂ WritesModule ms modules) :
    WritesDocument ms (["declare module '@polkadot/api/types/errors' \x7b",
      "  export interface AugmentedErrors<ApiType extends ApiTypes> \x7b"] ++ modules.flatten ++
        ["  \x7d // AugmentedErrors", "\x7d // declare module"])

theorem writesText_iff (text line : String) : WritesText text line ↔ line = docLine text := by
  simp only [WritesText, Text.trims_iff, exists_eq_left, ← toList_docLine, String.toList_inj]

/-- If a function gives the one thing that is written of each item, what is written of items in order
is the list of its values. -/
theorem forall₂_iff_eq_map {α β : Type} {writes : α → β → Prop} {f : α → β}
    (h : ∀ a b, writes a b ↔ b = f a) {as : List α} {bs : List β} :
    List.Forall₂ writes as bs ↔ bs = as.map f := by
  have heach : writes = fun a b => f a = b := funext₂ fun a b => propext ((h a b).trans eq_comm)
  rw [heach, ← List.forall₂_map_left_iff, List.forall₂_eq_eq_eq, eq_comm]

theorem writesDocs_iff (docs ls : List String) : WritesDocs docs ls ↔ ls = docBlock docs := by
  have htexts {ls : List String} : List.Forall₂ WritesText docs ls ↔ ls = docs.map docLine :=
    forall₂_iff_eq_map writesText_iff
  constructor
  · rintro (_ | ⟨hdocs, h⟩)
    · rfl
    · rw [htexts.1 h, docBlock, if_neg (mt List.isEmpty_iff.1 hdocs)]
  · rintro rfl
    unfold docBlock
    split
    case isTrue hempty =>
      obtain rfl := List.isEmpty_iff.1 hempty
      exact .none
    case isFalse hdocs => exact .comment (mt List.isEmpty_iff.2 hdocs) (htexts.2 rfl)

theorem writesItem_iff (i : ErrorItem) (ls : List String) :
    WritesItem i ls ↔ ls = memberLines i.name i.docs := by
  constructor
  · rintro ⟨h⟩
    rw [(writesDocs_iff _ _).1 h, memberLines]
  · rintro rfl
    exact .member ((writesDocs_iff _ _).2 rfl)

theorem writesModule_iff (m : ErrorModule) (ls : List String) :
    WritesModule m ls ↔ ls = m.lines true := by
  have hitems {members : List (List String)} : List.Forall₂ WritesItem m.items members ↔
      members = m.items.map fun i => memberLines i.name i.docs :=
    forall₂_iff_eq_map writesItem_iff
  rw [lines_true]
  constructor
  · rintro ⟨h⟩
    rw [hitems.1 h]
    rfl
  · rintro rfl
    exact .between (hitems.2 rfl)

/-- The lines of a strict document are those that write its modules, and no others do. -/
theorem writesDocument_iff (ms : List ErrorModule) (ls : List String) :
    WritesDocument ms ls ↔ ls = documentLines true ms := by
  have hmodules {modules : List (List String)} :
      List.Forall₂ WritesModule ms modules ↔ modules = ms.map (lines true) :=
    forall₂_iff_eq_map writesModule_iff
  constructor
  · rintro ⟨h⟩
    rw [hmodules.1 h]
    rfl
  · rintro rfl
    exact .between (hmodules.2 rfl)

end ChainTypings.ErrorModule
