import ChainTypings.Proofs.Shape.Reading
import ChainTypings.Shape.Parse

/-!
# Canonical type expressions

The syntax of type texts as the parser sees it: names and references to the registry, tuples,
arrays and slices, wrappers around one or two types, numbers of a given length, types that are never
built, and generic types without a rule. `shape` is the shape that an expression is meant to have.

An expression is `Canonical` if its text says what it is: no name is a word for text or looks like
a reference, a generic type has none of the names with a rule, and no sequence of bytes is spelt
out. Then its text is in its normal spelling already (`Canonical.aliased_phrase`).
-/

namespace ChainTypings

open Text Spelling

/-! ## Words -/

/-- The word that a tag is named by. -/
def Tag.word (t : Tag) : AsciiWord :=
  ⟨t.name.toList, by cases t <;> decide, List.all_eq_true.1 (by cases t <;> decide)⟩

/-- The word of a reference to the registry with its number. -/
def lookupWord (n : Numeral) : AsciiWord where
  chars := AsciiWord.lookup.chars ++ n.digits
  ne_nil := by simp [AsciiWord.lookup]
  ascii c hc := by
    rcases List.mem_append.1 hc with hc | hc
    · exact AsciiWord.lookup.ascii c hc
    · exact n.word.ascii c hc

/-- A word that names a type as it stands. -/
structure Text.AsciiWord.IsPlain (w : AsciiWord) : Prop where
  not_text : w.isText = false
  not_lookup : ¬w.IsLookup

/-- A wrapper around one type. -/
inductive Wrapper where
  | bTreeSet | compact | linkage | option | range | rangeInclusive | vec | wrapperOpaque
  deriving DecidableEq, Repr

namespace Wrapper

/-- The tag of a wrapper; both ranges have the same. -/
def tag : Wrapper → Tag
  | bTreeSet => .bTreeSet
  | compact => .compact
  | linkage => .linkage
  | option => .option
  | range => .range
  | rangeInclusive => .range
  | vec => .vec
  | wrapperOpaque => .wrapperOpaque

/-- The word of a wrapper. -/
def word : Wrapper → AsciiWord
  | rangeInclusive => .of "RangeInclusive".toList
  | w => w.tag.word

end Wrapper

/-- A wrapper around two types. -/
inductive Pairing where
  | bTreeMap | hashMap | result
  deriving DecidableEq, Repr

/-- The tag of a wrapper around two types. -/
def Pairing.tag : Pairing → Tag
  | bTreeMap => .bTreeMap
  | hashMap => .hashMap
  | result => .result

/-- The tag of a number. -/
def numberTag (signed : Bool) : Tag := if signed then .int else .uInt

/-! ## Expressions -/

/-- A type expression. -/
inductive TypeExpr where
  | name (word : AsciiWord)
  /-- A reference to an entry of the registry. -/
  | lookup (index : Numeral)
  | unit
  | tuple (elements : List TypeExpr)
  | array (element : TypeExpr) (count : Numeral)
  | slice (element : TypeExpr)
  | wrapper (wrapper : Wrapper) (argument : TypeExpr)
  | pair (wrapper : Pairing) (first second : TypeExpr)
  | number (signed : Bool) (bits : Numeral)
  /-- A number that keeps the name of another type. -/
  | labelledNumber (signed : Bool) (bits : Numeral) (label : TypeExpr)
  | doNotConstruct (arguments : List TypeExpr)
  /-- A generic type without a rule of its own. -/
  | generic (head : AsciiWord) (arguments : List TypeExpr)

namespace TypeExpr

mutual

/-- The expression as a phrase. -/
def phrase : TypeExpr → Phrase
  | name w => .name w
  | lookup n => .name (lookupWord n)
  | unit => .tuple []
  | tuple es => .tuple (phraseEach es)
  | array e n => .array (phrase e) n
  | slice e => .slice (phrase e)
  | wrapper w e => .generic w.word [phrase e]
  | pair p a b => .generic p.tag.word [phrase a, phrase b]
  | number s n => .generic (numberTag s).word [.name n.word]
  | labelledNumber s n e => .generic (numberTag s).word [.name n.word, phrase e]
  | doNotConstruct es => .generic Tag.doNotConstruct.word (phraseEach es)
  | generic h es => .generic h (phraseEach es)

/-- Several expressions as phrases. -/
def phraseEach : List TypeExpr → List Phrase
  | [] => []
  | e :: es => phrase e :: phraseEach es

end

/-- The text of an expression, without blanks. -/
def print (e : TypeExpr) : List Char := e.phrase.print

/-- The text of an expression. -/
def text (e : TypeExpr) : String := String.ofList e.print

mutual

/-- The shape that an expression is meant to have. -/
def shape : TypeExpr → Shape
  | name w => .leaf { tag := .plain, type := (name w).text }
  | lookup n => .leaf { tag := .si, type := (lookup n).text, lookupIndex := .int n.value }
  | unit => .leaf { tag := .null, type := "Null" }
  | tuple es => .group { tag := .tuple, type := (tuple es).text } (shapeEach es)
  | array e n =>
    .single { tag := .vecFixed, type := (array e n).text, length := .int n.value } (shape e)
  | slice e => .single { tag := .vec, type := (slice e).text } (shape e)
  | wrapper w e => .single { tag := w.tag, type := (wrapper w e).text } (shape e)
  | pair p a b => .group { tag := p.tag, type := (pair p a b).text } [shape a, shape b]
  | number s n => .leaf { tag := numberTag s, type := (number s n).text, length := .int n.value }
  | labelledNumber s n e =>
    .leaf
      { tag := numberTag s
        type := (labelledNumber s n e).text
        typeName := .str e.text
        length := .int n.value }
  | doNotConstruct es => .leaf { tag := .doNotConstruct, type := (doNotConstruct es).text }
  | generic h es => .leaf { tag := .plain, type := (generic h es).text }

/-- The shapes that several expressions are meant to have. -/
def shapeEach : List TypeExpr → List Shape
  | [] => []
  | e :: es => shape e :: shapeEach es

end

theorem phraseEach_eq_map (es : List TypeExpr) : phraseEach es = es.map phrase := by
  induction es with
  | nil => rfl
  | cons e es ih => rw [phraseEach, ih, List.map_cons]

theorem shapeEach_eq_map (es : List TypeExpr) : shapeEach es = es.map shape := by
  induction es with
  | nil => rfl
  | cons e es ih => rw [shapeEach, ih, List.map_cons]

/-- An expression whose text says what it is. -/
inductive Canonical : TypeExpr → Prop
  | name {w : AsciiWord} : w.IsPlain → Canonical (.name w)
  | lookup (n) : Canonical (.lookup n)
  | unit : Canonical .unit
  | tuple {es} : 2 ≤ es.length → (∀ e ∈ es, Canonical e) → Canonical (.tuple es)
  | array {e} (n) : Canonical e → Canonical (.array e n)
  | slice {e} : e ≠ .name .u8 → Canonical e → Canonical (.slice e)
  | wrapper {w e} : (w = .vec → e ≠ .name .u8) → Canonical e → Canonical (.wrapper w e)
  | pair {a b} (p) : Canonical a → Canonical b → Canonical (.pair p a b)
  | number (s n) : Canonical (.number s n)
  | labelledNumber {e} (s n) : Canonical e → Canonical (.labelledNumber s n e)
  | doNotConstruct {es} : (∀ e ∈ es, Canonical e) → Canonical (.doNotConstruct es)
  | generic {h es} : h.IsPlain → h ≠ .box → (∀ p ∈ Construct.generics, p.1 ≠ h.toString) →
      (∀ e ∈ es, Canonical e) → Canonical (.generic h es)

/-! ## The normal spelling -/

theorem not_isText_word (t : Tag) : t.word.isText = false := by cases t <;> decide

theorem word_ne_box (t : Tag) : t.word ≠ .box := by cases t <;> decide

theorem not_isText_wrapper (w : Wrapper) : w.word.isText = false := by cases w <;> decide

theorem wrapper_ne_box (w : Wrapper) : w.word ≠ .box := by cases w <;> decide

theorem isText_lookupWord (n : Numeral) : (lookupWord n).isText = false :=
  AsciiWord.isText_eq_false (w := lookupWord n) rfl (by decide) (by decide)

/-- Only the name of a byte is written like it. -/
theorem eq_of_isByte_phrase {e : TypeExpr} (h : e.phrase.isByte = true) : e = .name .u8 := by
  cases e with
  | name w => rw [of_decide_eq_true h]
  | lookup n =>
    have hw : lookupWord n = .u8 := of_decide_eq_true (p := lookupWord n = .u8) h
    exact absurd (List.cons.inj (congrArg AsciiWord.chars hw)).1 (by decide)
  | _ => exact absurd h (by simp [phrase, Phrase.isByte])

namespace Canonical

variable {e : TypeExpr}

/-- The passes of the normal spelling take nothing away from a canonical text. -/
theorem proper_phrase (h : e.Canonical) : e.phrase.Proper := by
  induction h with
  | name _ => exact .name _
  | lookup n => exact .name _
  | unit => exact .tuple (by simp) (by simp)
  | tuple hn _ ih =>
    rw [phrase, phraseEach_eq_map]
    exact .tuple (by simp; omega) (by simpa using ih)
  | array n _ ih => exact .array n ih
  | slice _ _ ih => exact .slice ih
  | @wrapper w e _ _ ih => exact .generic (wrapper_ne_box w) (by simpa using ih)
  | pair p _ _ iha ihb => exact .generic (word_ne_box _) (by simpa using ⟨iha, ihb⟩)
  | number s n => exact .generic (word_ne_box _) (by simpa using .name n.word)
  | labelledNumber s n _ ih =>
    exact .generic (word_ne_box _) (by simpa using ⟨.name n.word, ih⟩)
  | doNotConstruct _ ih =>
    rw [phrase, phraseEach_eq_map]
    exact .generic (word_ne_box _) (by simpa using ih)
  | generic _ hb _ _ ih =>
    rw [phrase, phraseEach_eq_map]
    exact .generic hb (by simpa using ih)

theorem renamed_phrase (h : e.Canonical) : e.phrase.renamed = e.phrase := by
  induction h with
  | name hw => exact congrArg Phrase.name (AsciiWord.renamed_eq_self hw.not_text)
  | lookup n => exact congrArg Phrase.name (AsciiWord.renamed_eq_self (isText_lookupWord n))
  | unit => rfl
  | @tuple es _ _ ih =>
    have ih : es.map (Phrase.renamed ∘ phrase) = es.map phrase := List.map_congr_left ih
    rw [phrase, phraseEach_eq_map, Phrase.renamed, Phrase.renamedEach_eq_map, List.map_map, ih]
  | array n _ ih => rw [phrase, Phrase.renamed, ih]
  | slice _ _ ih => rw [phrase, Phrase.renamed, ih]
  | @wrapper w e _ _ ih =>
    simp only [phrase, Phrase.renamed, Phrase.renamedEach, ih,
      AsciiWord.renamed_eq_self (not_isText_wrapper w)]
  | pair p _ _ iha ihb =>
    simp only [phrase, Phrase.renamed, Phrase.renamedEach, iha, ihb,
      AsciiWord.renamed_eq_self (not_isText_word p.tag)]
  | number s n =>
    simp only [phrase, Phrase.renamed, Phrase.renamedEach,
      AsciiWord.renamed_eq_self (AsciiWord.isText_numeral n),
      AsciiWord.renamed_eq_self (not_isText_word (numberTag s))]
  | labelledNumber s n _ ih =>
    simp only [phrase, Phrase.renamed, Phrase.renamedEach, ih,
      AsciiWord.renamed_eq_self (AsciiWord.isText_numeral n),
      AsciiWord.renamed_eq_self (not_isText_word (numberTag s))]
  | @doNotConstruct es _ ih =>
    have ih : es.map (Phrase.renamed ∘ phrase) = es.map phrase := List.map_congr_left ih
    rw [phrase, phraseEach_eq_map, Phrase.renamed, Phrase.renamedEach_eq_map, List.map_map, ih,
      AsciiWord.renamed_eq_self (not_isText_word .doNotConstruct)]
  | @generic g es hg _ _ _ ih =>
    have ih : es.map (Phrase.renamed ∘ phrase) = es.map phrase := List.map_congr_left ih
    rw [phrase, phraseEach_eq_map, Phrase.renamed, Phrase.renamedEach_eq_map, List.map_map, ih,
      AsciiWord.renamed_eq_self hg.not_text]

theorem packed_phrase (h : e.Canonical) : e.phrase.packed = e.phrase := by
  induction h with
  | name _ => rfl
  | lookup n => rfl
  | unit => rfl
  | @tuple es _ _ ih =>
    have ih : es.map (Phrase.packed ∘ phrase) = es.map phrase := List.map_congr_left ih
    rw [phrase, phraseEach_eq_map, Phrase.packed, Phrase.packedEach_eq_map, List.map_map, ih]
  | array n _ ih => rw [phrase, Phrase.packed, ih]
  | slice hb _ ih =>
    rw [phrase, Phrase.packed, if_neg fun h => hb (eq_of_isByte_phrase h), ih]
  | @wrapper w e hb _ ih =>
    -- only a vector is written as one, and that of bytes is not canonical
    have hvec : w.word = .vec → w = .vec := by cases w <;> decide
    have hne : ¬(w.word = .vec ∧ Phrase.areByte [e.phrase] = true) :=
      fun h => hb (hvec h.1) (eq_of_isByte_phrase h.2)
    simp only [phrase, Phrase.packed, if_neg hne, Phrase.packedEach, ih]
  | pair p _ _ iha ihb =>
    have hne : p.tag.word ≠ .vec := by cases p <;> decide
    simp only [phrase, Phrase.packed, hne, false_and, if_false, Phrase.packedEach, iha, ihb]
  | number s n =>
    have hne : (numberTag s).word ≠ .vec := by cases s <;> decide
    simp only [phrase, Phrase.packed, hne, false_and, if_false, Phrase.packedEach]
  | labelledNumber s n _ ih =>
    have hne : (numberTag s).word ≠ .vec := by cases s <;> decide
    simp only [phrase, Phrase.packed, hne, false_and, if_false, Phrase.packedEach, ih]
  | @doNotConstruct es _ ih =>
    have hne : Tag.doNotConstruct.word ≠ .vec := by decide
    have ih : es.map (Phrase.packed ∘ phrase) = es.map phrase := List.map_congr_left ih
    rw [phrase, phraseEach_eq_map, Phrase.packed, if_neg fun h => hne h.1,
      Phrase.packedEach_eq_map, List.map_map, ih]
  | @generic g es _ _ ht _ ih =>
    -- a vector has a rule of its own
    have hne : g ≠ .vec := by
      rintro rfl
      exact ht ("Vec", .vec) (by decide) rfl
    have ih : es.map (Phrase.packed ∘ phrase) = es.map phrase := List.map_congr_left ih
    rw [phrase, phraseEach_eq_map, Phrase.packed, if_neg fun h => hne h.1,
      Phrase.packedEach_eq_map, List.map_map, ih]

/-- A canonical text is in its normal spelling. -/
theorem aliased_phrase (h : e.Canonical) : e.phrase.aliased = e.phrase := by
  rw [Phrase.aliased, h.renamed_phrase, h.packed_phrase]

/-- Every text that is canonical but for blanks has the canonical text as its normal spelling. -/
theorem normalize_of_filter (h : e.Canonical) {s : List Char}
    (hs : s.filter (!isBlank ·) = e.print) : normalize s = e.print := by
  rw [h.proper_phrase.normalize_of_filter hs, h.aliased_phrase, print]

end Canonical

end TypeExpr

end ChainTypings
