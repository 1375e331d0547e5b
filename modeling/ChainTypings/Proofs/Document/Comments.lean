import ChainTypings.Proofs.Document.ErrorLines

/-!
# Comments of the errors document

The documentation of an error stands in a comment of its own. The comment ends with its last line if
and only if no line of the documentation holds the end of a comment (`closesItself_iff`): such a line
is copied as it is, and what follows the end is no comment any more.
-/

namespace ChainTypings.ErrorModule

open Text

/-- What ends a comment. -/
def commentEnd : List Char := ['*', '/']

/-- A place among the lines of a document where the comment of documentation lines stands. -/
structure Comment (lines : List String) where
  before : List String
  docs : List String
  after : List String
  documented : docs ≠ []
  lines_eq : lines = before ++ docBlock docs ++ after

namespace Comment

variable {lines : List String} (c : Comment lines)

/-- The text up to the two characters that open the comment. -/
def front : String := written c.before ++ "      /*"

/-- The text between these and the two characters with which its last line ends. -/
def content : String := "*\n" ++ written (c.docs.map docLine) ++ "       *"

/-- The text behind the last line of the comment. -/
def behind : String := "\n" ++ written c.after

/-- The first end of a comment behind the opening is that of the last line. -/
def ClosesItself : Prop :=
  (c.content ++ "*/" ++ c.behind).toList.dropInfix? commentEnd =
    some (c.content.toList, c.behind.toList)

/-! ## The first end of a comment -/

/-- The end of a comment behind a text is the first if none is in the text. -/
theorem dropInfix?_commentEnd_iff {xs ys : List Char} :
    (xs ++ commentEnd ++ ys).dropInfix? commentEnd = some (xs, ys) ↔ ¬commentEnd <:+: xs := by
  simp only [List.dropInfix?_eq_some_iff, beq_iff_eq]
  constructor
  · rintro ⟨-, hfirst⟩ ⟨front, back, rfl⟩
    have hshorter := hfirst front commentEnd (back ++ (commentEnd ++ ys)) (by simp) rfl
    simp only [List.length_append, commentEnd, List.length_cons] at hshorter
    omega
  · intro hnone
    refine ⟨⟨_, rfl, rfl⟩, ?_⟩
    rintro front _ back heq rfl
    simp only [List.append_assoc] at heq
    rcases List.append_eq_append_iff.1 heq with ⟨mid, rfl, -⟩ | ⟨mid, rfl, hmid⟩
    · simp
    · -- an end that starts `mid` earlier: it is in the text, or starts with its last character
      match mid, hmid with
      | [], _ => simp
      | [_], hmid => simp [commentEnd] at hmid
      | _ :: _ :: mid, hmid =>
        simp only [commentEnd, List.cons_append, List.nil_append, List.cons.injEq] at hmid
        obtain ⟨rfl, rfl, -⟩ := hmid
        exact absurd ⟨front, mid, by simp [commentEnd]⟩ hnone

/-! ## Ends of comments in lines -/

/-- Lines hold the end of a comment if one of them does: none goes across a line break. -/
theorem commentEnd_infix_written_iff (lines : List String) :
    commentEnd <:+: (written lines).toList ↔ ∃ line ∈ lines, commentEnd <:+: line.toList := by
  induction lines with
  | nil => simp [commentEnd]
  | cons line lines ih =>
    have hbreak : (line ++ "\n" ++ written lines).toList =
        line.toList ++ '\n' :: (written lines).toList := by simp
    have hapart : commentEnd <:+: (line ++ "\n" ++ written lines).toList ↔
        commentEnd <:+: line.toList ∨ commentEnd <:+: (written lines).toList := by
      rw [hbreak]
      exact pair_infix_append_cons_iff (by decide) (by decide)
    rw [written_cons, hapart, ih]
    simp

/-- What holds no slash holds no end of a comment. -/
theorem not_commentEnd_infix {cs : List Char} (h : '/' ∉ cs) : ¬commentEnd <:+: cs := fun hend =>
  h (hend.subset (by simp [commentEnd]))

/-- A documentation line holds the end of a comment if the text that it is made of does. -/
theorem commentEnd_infix_docLine_iff (line : String) :
    commentEnd <:+: (docLine line).toList ↔ commentEnd <:+: line.toList := by
  have hstrip : commentEnd <:+: strip line.toList ↔ commentEnd <:+: line.toList :=
    pair_infix_strip_iff (by decide) (by decide) _
  have hapart : commentEnd <:+: "       *".toList ++ ' ' :: strip line.toList ↔
      commentEnd <:+: "       *".toList ∨ commentEnd <:+: strip line.toList :=
    pair_infix_append_cons_iff (by decide) (by decide)
  have hstar : ¬commentEnd <:+: "       *".toList := not_commentEnd_infix (by decide)
  rw [toList_docLine, ← hstrip]
  split
  case isTrue h =>
    simp only [h, List.append_nil, hstar]
    simp [commentEnd]
  case isFalse => simp only [hapart, hstar, false_or]

/-- What a comment holds has the end of a comment in it if one of its documentation lines has. -/
theorem commentEnd_infix_content_iff :
    commentEnd <:+: c.content.toList ↔ ∃ line ∈ c.docs, commentEnd <:+: line.toList := by
  have hcontent : c.content.toList =
      ['*'] ++ '\n' :: ((written (c.docs.map docLine)).toList ++ "       *".toList) := by
    simp [content]
  have hapart (cs : List Char) : commentEnd <:+: ['*'] ++ '\n' :: cs ↔
      commentEnd <:+: ['*'] ∨ commentEnd <:+: cs :=
    pair_infix_append_cons_iff (by decide) (by decide)
  have hopening : ¬commentEnd <:+: ['*'] := not_commentEnd_infix (by decide)
  have hlast : ¬commentEnd <:+: "       *".toList := not_commentEnd_infix (by decide)
  have hhead : "       *".toList.head? ≠ some '/' := by decide
  have hdocs : commentEnd <:+: (written (c.docs.map docLine)).toList ++ "       *".toList ↔
      commentEnd <:+: (written (c.docs.map docLine)).toList := by
    refine pair_infix_append_iff.trans ⟨?_, .inl⟩
    rintro (h | h | ⟨-, h⟩)
    · exact h
    · exact absurd h hlast
    · exact absurd h hhead
  rw [hcontent, hapart, or_iff_right hopening, hdocs, commentEnd_infix_written_iff]
  simp only [List.mem_map, exists_exists_and_eq_and]
  exact exists_congr fun line => and_congr_right fun _ => commentEnd_infix_docLine_iff line

/-- A comment ends with its last line if and only if no line of the documentation holds the end of
a comment. -/
theorem closesItself_iff : c.ClosesItself ↔ ∀ line ∈ c.docs, ¬commentEnd <:+: line.toList := by
  have htext : (c.content ++ "*/" ++ c.behind).toList =
      c.content.toList ++ commentEnd ++ c.behind.toList := by simp [commentEnd]
  rw [ClosesItself, htext, dropInfix?_commentEnd_iff, commentEnd_infix_content_iff]
  simp only [not_exists, not_and]

/-- Lines with a comment among them are the comment between its two ends. -/
theorem written_eq : written lines = c.front ++ c.content ++ "*/" ++ c.behind := by
  have hblock : written (docBlock c.docs) =
      "      /*" ++ "*\n" ++ written (c.docs.map docLine) ++ "       *" ++ "*/" ++ "\n" := by
    rw [docBlock, if_neg (by simpa using c.documented)]
    apply String.toList_injective
    simp
  have hlines : written lines = written c.before ++ written (docBlock c.docs) ++ written c.after := by
    conv_lhs => rw [c.lines_eq]
    rw [written_append, written_append]
  rw [hlines, hblock]
  apply String.toList_injective
  simp [front, content, behind]

end Comment

/-- The documentation of an error stands in a comment right in front of the line of its member. -/
theorem exists_comment (strict : Bool) {ms : List ErrorModule} {m : ErrorModule} {i : ErrorItem}
    (hm : m ∈ ms) (hi : i ∈ m.items) (hdocs : i.docs ≠ []) :
    ∃ c : Comment (documentLines strict ms), c.docs = i.docs ∧
      c.after.head? = some ("      " ++ i.name ++ ": AugmentedError<ApiType>;") := by
  obtain ⟨ms₁, ms₂, rfl⟩ := List.append_of_mem hm
  obtain ⟨items₁, items₂, hitems⟩ := List.append_of_mem hi
  obtain ⟨before, after, hlines⟩ : ∃ before after,
      documentLines strict (ms₁ ++ m :: ms₂) = before ++ memberLines i.name i.docs ++ after := by
    refine ⟨["declare module '@polkadot/api/types/errors' \x7b",
      "  export interface AugmentedErrors<ApiType extends ApiTypes> \x7b"] ++
        ms₁.flatMap (lines strict) ++ (("    " ++ m.name ++ ": \x7b") ::
          items₁.flatMap fun i => memberLines i.name i.docs),
      items₂.flatMap (fun i => memberLines i.name i.docs) ++
        (if strict then [] else genericLines) ++ ["    \x7d;"] ++ ms₂.flatMap (lines strict) ++
          ["  \x7d // AugmentedErrors", "\x7d // declare module"], ?_⟩
    simp only [documentLines, lines, hitems, List.flatMap_append, List.flatMap_cons,
      List.append_assoc, List.cons_append, List.nil_append]
  refine ⟨⟨before, i.docs, _ :: after, hdocs, ?_⟩, rfl, rfl⟩
  rw [hlines, memberLines]
  simp only [List.append_assoc, List.cons_append, List.nil_append]

/-- The documentation of every error stands in a comment in front of its member. A comment ends with
its last line, so that nothing of the documentation is code, if and only if no line of the
documentation holds the end of a comment; the lines are copied, whatever they hold. -/
theorem comments_close_iff (strict : Bool) (ms : List ErrorModule) :
    (∀ m ∈ ms, ∀ i ∈ m.items, i.docs ≠ [] → ∃ c : Comment (documentLines strict ms),
      c.docs = i.docs ∧
        c.after.head? = some ("      " ++ i.name ++ ": AugmentedError<ApiType>;")) ∧
    ∀ c : Comment (documentLines strict ms),
      source strict ms = preamble ++ c.front ++ c.content ++ "*/" ++ c.behind ∧
      (c.ClosesItself ↔ ∀ line ∈ c.docs, ¬commentEnd <:+: line.toList) := by
  refine ⟨fun m hm i hi hdocs => exists_comment strict hm hi hdocs, fun c => ⟨?_, c.closesItself_iff⟩⟩
  rw [source_eq, c.written_eq]
  simp only [String.append_assoc]

/-- A pallet whose documentation comes close to ending its comment. -/
def starredPallet : ErrorModule :=
  ⟨"vesting", [⟨"NotVesting", ["*", "/ of * / and /*\n/", " /"]⟩]⟩

theorem comments_close_starredPallet : ∃ c : Comment (documentLines false [starredPallet]),
    c.docs = ["*", "/ of * / and /*\n/", " /"] ∧ c.ClosesItself := by
  obtain ⟨hcomment, hcloses⟩ := comments_close_iff false [starredPallet]
  obtain ⟨c, hdocs, -⟩ := hcomment starredPallet (by simp) _ (List.mem_singleton_self _) (by simp)
  refine ⟨c, hdocs, (hcloses c).2.2 fun line hline => ?_⟩
  rw [hdocs] at hline
  simp only [List.mem_cons, List.not_mem_nil, or_false] at hline
  rcases hline with rfl | rfl | rfl <;> simp [commentEnd, List.infix_cons_iff]

/-- A pallet whose documentation ends its comment. -/
def leakyPallet : ErrorModule :=
  ⟨"balances", [⟨"InsufficientBalance", ["Too low */ evil: never; /* rest"]⟩]⟩

theorem not_closes_leakyPallet :
    ∃ c : Comment (documentLines true [leakyPallet]),
      c.docs = ["Too low */ evil: never; /* rest"] ∧ ¬c.ClosesItself := by
  obtain ⟨c, hdocs, -⟩ := exists_comment true (List.mem_singleton_self leakyPallet)
    (List.mem_singleton_self _) (by simp)
  refine ⟨c, hdocs, fun hcloses => ?_⟩
  refine c.closesItself_iff.1 hcloses "Too low */ evil: never; /* rest" (by simp [hdocs]) ?_
  exact ⟨"Too low ".toList, " evil: never; /* rest".toList, by decide⟩

end ChainTypings.ErrorModule
