import ChainTypings.Proofs.Render.Given
import ChainTypings.Proofs.Session.Labels
import ChainTypings.Proofs.Spelling.Characters
import ChainTypings.Proofs.Spelling.Front

/-!
# Labels in the notation of tuples, arrays and vectors

A name that is written as a tuple, an array or a vector describes itself and gives no label. It is
the name as given that is looked at. Its normal spelling may show what was hidden in it, so a label
may be such a notation after all (`label_of_hidden_notation`).

`Call.label_isNotation` says how far the rule reaches. A name with a bare head gives no label in
notation, whatever follows the head. Of a decorated type text the label is a notation exactly if the
type without the decorations is one.
-/

namespace ChainTypings

open Text Spelling

namespace Label

/-! ## Texts that start with a word -/

theorem not_isPrefixOf {start cs : List Char} {c : Char} (hc : c ∈ start) (hcs : c ∉ cs) :
    start.isPrefixOf cs = false := by
  rw [Bool.eq_false_iff]
  intro h
  exact hcs ((List.isPrefixOf_iff_prefix.1 h).subset hc)

theorem isNotation_of_forall_isWordChar {cs : List Char} (h : ∀ c ∈ cs, isWordChar c = true) :
    isNotation cs = false := by
  have hnot : ∀ {c}, isWordChar c = false → c ∉ cs := fun hc => not_mem_of_isWordChar hc h
  rw [isNotation, notationStarts, List.any_cons, List.any_cons, List.any_cons, List.any_nil,
    not_isPrefixOf (c := '(') (by decide) (hnot rfl), not_isPrefixOf (c := '[') (by decide) (hnot rfl),
    not_isPrefixOf (c := '<') (by decide) (hnot rfl)]
  rfl

/-- A text that starts with a word is no notation but that of a vector. -/
theorem isNotation_append_cons (w : AsciiWord) {c : Char} (hc : isWordChar c = false)
    (rest : List Char) : isNotation (w.chars ++ c :: rest) = decide (w = .vec ∧ c = '<') := by
  have hmark : ∀ {d}, isWordChar d = false → [d].isPrefixOf (w.chars ++ c :: rest) = false := by
    intro d hd
    rw [Bool.eq_false_iff]
    intro h
    obtain ⟨tail, htail⟩ := List.isPrefixOf_iff_prefix.1 h
    exact w.append_ne_cons hd htail.symm
  have hvec : ['V', 'e', 'c', '<'].isPrefixOf (w.chars ++ c :: rest) = decide (w = .vec ∧ c = '<') := by
    rw [Bool.eq_iff_iff, List.isPrefixOf_iff_prefix, decide_eq_true_eq]
    constructor
    · rintro ⟨tail, htail⟩
      obtain ⟨hw, hlt, -⟩ := append_cons_inj AsciiWord.vec.isWordChar w.isWordChar rfl hc htail
      exact ⟨AsciiWord.ext hw.symm, hlt.symm⟩
    · rintro ⟨rfl, rfl⟩
      exact ⟨rest, rfl⟩
  rw [isNotation, notationStarts, List.any_cons, List.any_cons, List.any_cons, List.any_nil,
    hmark rfl, hmark rfl, hvec, Bool.false_or, Bool.false_or, Bool.or_false]

end Label

namespace Spelling.Phrase

/-- Whether the phrase is written as a tuple, an array or a vector. -/
def isNotation : Phrase → Bool
  | name _ => false
  | generic h _ => h = .vec
  | _ => true

theorem isNotation_print (t : Phrase) : Label.isNotation t.print = t.isNotation := by
  cases t with
  | name w => exact Label.isNotation_of_forall_isWordChar w.isWordChar
  | generic g ts =>
    rw [print, Label.isNotation_append_cons g rfl, isNotation]
    simp
  | _ => rfl

end Spelling.Phrase

namespace Label

/-! ## The label of a name -/

/-- A name from whose head nothing is taken off: a word that is no box's stands in front, and behind
it the name ends or goes on with the punctuation of types, which opens no projection. -/
inductive HasBareHead : List Char → Prop
  | word (w : AsciiWord) : HasBareHead w.chars
  | followed {w : AsciiWord} {c : Char} {rest : List Char} : isNameEnd c = true →
      ¬(w = .box ∧ c = '<') → (c = '<' → afterProjection? (c :: rest) = none) →
      HasBareHead (w.chars ++ c :: rest)

theorem isLabelChar_of_isWordChar {c : Char} (h : isWordChar c = true) : isLabelChar c = true := by
  rw [isLabelChar, h, Bool.true_or]

theorem isLabelChar_of_isNameEnd {c : Char} (h : isNameEnd c = true) : isLabelChar c = true := by
  have hall : [',', ';', '>', ')', ']'].all isLabelChar = true := by decide
  simp only [isNameEnd, Bool.or_eq_true, decide_eq_true_eq] at h
  rcases h with (h | rfl) | rfl
  · exact List.all_eq_true.1 hall c (List.contains_iff_mem.1 h)
  · decide
  · decide

theorem isLabelChar_of_mem_print {t : Phrase} {c : Char} (hc : c ∈ t.print) :
    isLabelChar c = true := by
  by_contra h
  rw [Bool.not_eq_true, isLabelChar, Bool.or_eq_false_iff] at h
  refine t.not_mem_print h.1 (fun hmem => ?_) hc
  have hall : ['(', ')', '[', ']', '<', '>', ',', ';'].all
      ("<>[](),;".toList.contains ·) = true := by decide
  rw [List.all_eq_true.1 hall c hmem] at h
  exact Bool.noConfusion h.2

/-- The label of a decorated type text is the text of the type without the decorations. -/
theorem labelOf_print (d : Decorated) :
    labelOf (String.ofList d.print) = d.strip.aliased.print := by
  rw [labelOf, String.toList_ofList, d.proper_strip.normalize_of_unbox d.unbox_uncover_print,
    List.filter_eq_self]
  exact fun c hc => isLabelChar_of_mem_print hc

/-- Where the head of a name is bare, its label is a notation only if the name is. -/
theorem isNotation_labelOf {typeName : String} (h : HasBareHead typeName.toList)
    (hnot : isNotation typeName.toList = false) : isNotation (labelOf typeName) = false := by
  rw [labelOf]
  generalize typeName.toList = cs at h hnot
  cases h with
  | word w =>
    have hnames : "TextBytes".toList.all isWordChar = true := by decide
    have hwords := forall_normalize (List.all_eq_true.1 hnames) w.isWordChar
    exact isNotation_of_forall_isWordChar fun c hc => hwords c (List.mem_filter.1 hc).1
  | @followed w c rest hc hbox hrest =>
    have hword := isWordChar_eq_false_of_isMark (isMark_of_isNameEnd hc)
    rw [isNotation_append_cons w hword, decide_eq_false_iff_not] at hnot
    obtain ⟨rest', hnormal⟩ := exists_normalize_eq hc hbox hnot hrest
    have hchars : w.renamed.chars.filter isLabelChar = w.renamed.chars :=
      List.filter_eq_self.2 fun d hd => isLabelChar_of_isWordChar (w.renamed.isWordChar d hd)
    rw [hnormal, List.filter_append, hchars,
      List.filter_cons_of_pos (isLabelChar_of_isNameEnd hc), isNotation_append_cons _ hword,
      decide_eq_false_iff_not, Phrase.renamed_eq_iff rfl (by decide)]
    exact hnot

/-- A name that gives a label is no notation. -/
theorem isNotation_of_labelFor? {type typeName label : String}
    (h : labelFor? type typeName = some label) : isNotation typeName.toList = false := by
  unfold labelFor? at h
  split at h
  · cases h
  · next hgiven =>
    rw [Bool.or_eq_true, not_or] at hgiven
    exact Bool.eq_false_iff.2 hgiven.2

end Label

namespace Call

variable {l : Ledger} {type name : String}

/-! ## Labelled types -/

/-- A type that is written with a label was given a name for readers, and this gives the label. -/
theorem labelFor?_of_outcome {typeName : Option String}
    (h : (label type typeName).outcome l =
      .ok (some ("As<'" ++ name ++ "', " ++ type ++ ">"))) :
    ∃ given, typeName = some given ∧ Label.labelFor? type given = some name := by
  rw [outcome_eq _ fun _ => Iff.rfl] at h
  obtain ⟨e, he, htext⟩ := Trail.ok_map.1 h
  rcases Scope.ok_named he with rfl | ⟨label, hlabel, rfl⟩
  · -- a type is shorter than itself with a label
    have hlength := congrArg (fun t : Option String => (t.map String.length).getD 0) htext
    have hend : ">".length = 1 := rfl
    simp [Expr.print] at hlength
    omega
  · have hlists : ("As<'".toList ++ label.toList) ++ ("', " ++ type ++ ">").toList =
        ("As<'".toList ++ name.toList) ++ ("', " ++ type ++ ">").toList := by
      have := congrArg String.toList (Option.some.inj htext)
      simpa [Expr.print] using this
    have hname := List.append_cancel_left (List.append_cancel_right hlists)
    rw [String.toList_inj.1 hname] at hlabel
    obtain ⟨given, rfl, hgiven⟩ := Option.bind_eq_some_iff.1 hlabel
    exact ⟨given, rfl, hgiven⟩

/-- On whatever ledger: the name that gives a label is no notation. The label is none either if
the head of the name is bare. If the name is a decorated type text, the label is a notation if and
only if the type is one without its decorations. -/
theorem label_isNotation {typeName : Option String}
    (h : (label type typeName).outcome l =
      .ok (some ("As<'" ++ name ++ "', " ++ type ++ ">"))) :
    ∃ given, typeName = some given ∧ Label.isNotation given.toList = false ∧
      (Label.HasBareHead given.toList → Label.isNotation name.toList = false) ∧
      ∀ d : Decorated, given = String.ofList d.print →
        (Label.isNotation name.toList = true ↔ d.strip.aliased.isNotation = true) := by
  obtain ⟨given, rfl, hlabel⟩ := labelFor?_of_outcome h
  have hgiven := Label.isNotation_of_labelFor? hlabel
  obtain ⟨rfl, -⟩ := Label.of_labelFor? hlabel
  refine ⟨given, rfl, hgiven, ?_, ?_⟩
  · intro hbare
    rw [String.toList_ofList]
    exact Label.isNotation_labelOf hbare hgiven
  · rintro d rfl
    rw [String.toList_ofList, Label.labelOf_print, Phrase.isNotation_print]

/-- The name of a boxed type by its path, as an argument. -/
theorem label_isNotation_option :
    (label "u32" (some "Option<Box<T::Moment>>")).outcome (.empty [] []) =
        .ok (some ("As<'" ++ "Option<Moment>" ++ "', " ++ "u32" ++ ">")) ∧
      Label.isNotation "Option<Moment>".toList = false := by
  have hlabel : (label "u32" (some "Option<Box<T::Moment>>")).outcome (.empty [] []) =
      .ok (some ("As<'" ++ "Option<Moment>" ++ "', " ++ "u32" ++ ">")) :=
    eq_ok_of_toOption (by decide +kernel)
  obtain ⟨_, hgiven, -, hbare, -⟩ := label_isNotation hlabel
  obtain rfl := Option.some.inj hgiven
  have hhead : Label.HasBareHead "Option<Box<T::Moment>>".toList :=
    .followed (w := .of "Option".toList) (c := '<') rfl (by decide) fun _ => by decide +kernel
  exact ⟨hlabel, hbare hhead⟩

/-- The names of an array behind a reference and of a vector in a box show no notation, but the
labels that they give do. -/
theorem label_of_hidden_notation :
    ((label "u32" (some "&[u8; 4]")).outcome (.empty [] []) = .ok (some "As<'[u8;4]', u32>") ∧
      Label.isNotation "[u8;4]".toList = true) ∧
    ((label "u32" (some "Box<Vec<u64>>")).outcome (.empty [] []) =
        .ok (some "As<'Vec<u64>', u32>") ∧
      Label.isNotation "Vec<u64>".toList = true) ∧
    ((label "u32" (some "&'a (A, B)")).outcome (.empty [] []) = .ok (some "As<'(A,B)', u32>") ∧
      Label.isNotation "(A,B)".toList = true) :=
  ⟨⟨eq_ok_of_toOption (by decide +kernel), by decide +kernel⟩,
    ⟨eq_ok_of_toOption (by decide +kernel), by decide +kernel⟩,
    ⟨eq_ok_of_toOption (by decide +kernel), by decide +kernel⟩⟩

end Call

end ChainTypings
