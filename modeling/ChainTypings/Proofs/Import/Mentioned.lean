import ChainTypings.Import.Mention
import ChainTypings.Proofs.Render.Trail
import ChainTypings.Proofs.Shape.RoundTrip

/-!
# The names in a canonical expression

Mentioning the names of a canonical text never fails. It mentions the words of the expression, and
for each compound type on the way its tag, but none of the ignored names; so it does for the type
text of the shape, which is another text for the empty tuple only.
-/

namespace ChainTypings

open Text Spelling Import

/-! ## Words and compounds -/

theorem isCompound_eq_false {cs : List Char} (h : ∀ c ∈ cs, isWordChar c = true) :
    isCompound cs = false := by
  have hnot : ∀ c, isWordChar c = false → cs.contains c = false := by
    intro c hc
    rw [List.contains_eq_mem, decide_eq_false_iff_not]
    exact not_mem_of_isWordChar hc h
  rw [isCompound, hnot '<' rfl, hnot '(' rfl, hnot '[' rfl]
  rfl

theorem isCompound_of_category {name : String} {c : Category} (h : Category.of? name = some c) :
    isCompound name.toList = false := by
  have hall : ∀ c ∈ Category.all, ∀ n ∈ c.members, isCompound n.toList = false := by
    decide +kernel
  exact hall c c.mem_all name (Category.mem_members_of_of? h)

theorem note_eq (ignored : List String) (name : String) :
    note ignored name = .noting ignored [name] () := by
  by_cases h : name ∈ ignored
  · simp [note, Trail.noting, Trail.done, h]
  · simp [note, Trail.noting, Trail.mention, h]

/-- A word mentions itself. -/
theorem mentions_word (ignored : List String) {cs : List Char} (hne : cs ≠ [])
    (hw : ∀ c ∈ cs, isWordChar c = true) :
    mentions ignored cs = .noting ignored [String.ofList cs] () := by
  have hempty : cs.isEmpty = false := List.isEmpty_eq_false_iff.2 hne
  have hliteral : isLiteral cs = false := by
    have hq : cs.head? ≠ some '\'' := by
      intro hh
      exact not_mem_of_isWordChar rfl hw (List.mem_of_mem_head? hh)
    simp [isLiteral, hq]
  rw [mentions_eq, ← note_eq, note, stepOf, hempty, hliteral, isCompound_eq_false hw]
  by_cases hi : String.ofList cs ∈ ignored
  · simp [hi]
  · simp [hi]

theorem mentionsOf_word (ignored : List String) {name : String} (hne : name.toList ≠ [])
    (hw : IsWord name) : mentionsOf ignored name = .noting ignored [name] () := by
  have := mentions_word ignored hne hw
  rwa [String.ofList_toList] at this

theorem mentionsAll_words (ignored : List String) {names : List String}
    (h : ∀ n ∈ names, n.toList ≠ [] ∧ IsWord n) :
    mentionsAll ignored names = .noting ignored names () := by
  have heach : mentionsAll ignored names = .noting ignored (names.flatMap fun n => [n]) () :=
    Trail.forEach_noting fun n hn => mentionsOf_word ignored (h n hn).1 (h n hn).2
  rwa [List.flatMap_singleton'] at heach

namespace TypeExpr

/-! ## The names of an expression -/

mutual

/-- The names that the text of an expression mentions, in order. -/
def mentioned : TypeExpr → List String
  | name w => [w.toString]
  | lookup n => [(lookupWord n).toString]
  | unit => ["Null"]
  | tuple es => "Tuple" :: mentionedEach es
  | array e _ => "VecFixed" :: mentioned e
  | slice e => "Vec" :: mentioned e
  | wrapper w e => w.tag.name :: mentioned e
  | pair p a b => p.tag.name :: (mentioned a ++ mentioned b)
  | number s _ => [(numberTag s).name]
  | labelledNumber s _ _ => [(numberTag s).name]
  | doNotConstruct _ => ["DoNotConstruct"]
  | generic _ _ => ["Plain"]

/-- The names that the texts of several expressions mention, in order. -/
def mentionedEach : List TypeExpr → List String
  | [] => []
  | e :: es => mentioned e ++ mentionedEach es

end

theorem mentionedEach_eq_flatMap (es : List TypeExpr) :
    mentionedEach es = es.flatMap mentioned := by
  induction es with
  | nil => rfl
  | cons e es ih => rw [mentionedEach, ih, List.flatMap_cons]

theorem children_shape (e : TypeExpr) : e.shape.children = e.children.map shape := by
  cases e with
  | tuple es => exact shapeEach_eq_map es
  | _ => rfl

/-- A type that is spelt with brackets mentions its tag and the types beneath. -/
theorem mentioned_of_isCompound {e : TypeExpr} (h : isCompound e.print = true) :
    e.mentioned = e.shape.head.tag.name :: e.children.flatMap mentioned := by
  have word : ∀ w : AsciiWord, isCompound w.chars = true → False := by
    intro w hw
    rw [isCompound_eq_false w.isWordChar] at hw
    exact Bool.noConfusion hw
  cases e with
  | name w => exact (word w h).elim
  | lookup n => exact (word (lookupWord n) h).elim
  | tuple es => exact congrArg ("Tuple" :: ·) (mentionedEach_eq_flatMap es)
  | array e n => simp [mentioned, shape, Shape.head, children, Tag.name]
  | slice e => simp [mentioned, shape, Shape.head, children, Tag.name]
  | wrapper w e => simp [mentioned, shape, Shape.head, children]
  | pair p a b => simp [mentioned, shape, Shape.head, children]
  | _ => rfl

theorem mentions_compound {e : TypeExpr} (he : e.Canonical) (hc : isCompound e.print = true)
    {ignored : List String} (hi : ∀ n ∈ ignored, IsWord n)
    (ih : ∀ d ∈ e.children,
      mentions ignored d.shape.head.type.toList = .noting ignored d.mentioned ()) :
    mentions ignored e.print = .noting ignored e.mentioned () := by
  have hne : e.print.isEmpty = false := List.isEmpty_eq_false_iff.2 e.phrase.print_ne_nil
  have hignored : String.ofList e.print ∉ ignored := by
    intro hm
    have hword := hi _ hm
    rw [IsWord, String.toList_ofList] at hword
    rw [isCompound_eq_false hword] at hc
    exact Bool.noConfusion hc
  -- the names of the library are words, and a compound text is none
  have hcategory : Category.of? (String.ofList e.print) = none := by
    cases hof : Category.of? (String.ofList e.print) with
    | none => rfl
    | some c =>
      have hcompound := isCompound_of_category hof
      rw [String.toList_ofList, hc] at hcompound
      exact Bool.noConfusion hcompound
  have hliteral : isLiteral e.print = false := by
    have hq : e.print.head? ≠ some '\'' := by
      intro hh
      exact e.phrase.not_mem_print rfl (by decide) (List.mem_of_mem_head? hh)
    simp [isLiteral, hq]
  have hstep : stepOf ignored e.print = .compound := by
    simp [stepOf, hignored, hne, hcategory, hliteral, hc]
  have hchildren : Trail.forEach
      (fun child : Shape => mentions ignored child.head.type.toList) e.shape.children =
        .noting ignored (e.children.flatMap mentioned) () := by
    rw [children_shape, Trail.forEach_map]
    exact Trail.forEach_noting ih
  rw [mentions_eq, hstep]
  simp only [he.parse_print]
  rw [note_eq, mentioned_of_isCompound hc]
  exact Trail.noting_andThen hchildren

theorem isCompound_of_mem {e : TypeExpr} (h : '<' ∈ e.print ∨ '(' ∈ e.print ∨ '[' ∈ e.print) :
    isCompound e.print = true := by
  have hbar : '|' ∉ e.print := e.phrase.not_mem_print rfl (by decide)
  simpa [isCompound, hbar, or_assoc] using h

/-- The type text of a shape mentions the names of its expression. -/
theorem mentions_type {e : TypeExpr} (h : e.Canonical) {ignored : List String}
    (hi : ∀ n ∈ ignored, IsWord n) :
    mentions ignored e.shape.head.type.toList = .noting ignored e.mentioned () := by
  refine h.induction_children (motive := fun e =>
    mentions ignored e.shape.head.type.toList = .noting ignored e.mentioned ()) ?_
  intro e he ih
  have compound : ('<' ∈ e.print ∨ '(' ∈ e.print ∨ '[' ∈ e.print) →
      mentions ignored e.text.toList = .noting ignored e.mentioned () := by
    intro hmem
    rw [text, String.toList_ofList]
    exact mentions_compound he (isCompound_of_mem hmem) hi ih
  cases e with
  | name w =>
    show mentions ignored (name w).text.toList = .noting ignored [w.toString] ()
    rw [text, String.toList_ofList]
    exact mentions_word ignored w.ne_nil w.isWordChar
  | lookup n =>
    show mentions ignored (lookup n).text.toList = .noting ignored [(lookupWord n).toString] ()
    rw [text, String.toList_ofList]
    exact mentions_word ignored (lookupWord n).ne_nil (lookupWord n).isWordChar
  | unit => exact mentions_word ignored Tag.null.word.ne_nil Tag.null.word.isWordChar
  | tuple es => exact compound (.inr (.inl (by simp [print, phrase, Phrase.print])))
  | array e n => exact compound (.inr (.inr (by simp [print, phrase, Phrase.print])))
  | slice e => exact compound (.inr (.inr (by simp [print, phrase, Phrase.print])))
  | _ => exact compound (.inl (by simp [print, phrase, Phrase.print]))

end TypeExpr

end ChainTypings
