import ChainTypings.Proofs.Spelling.Phrase
import ChainTypings.Spelling.Decoration

/-!
# Decorated type texts

A type as source code writes it: names and generic types may have paths in front, any part may
stand in a box or behind a reference with or without a lifetime, and blanks may stand in front of
any part, so in particular after commas and semicolons.

`strip` is the phrase that is left when all of this is taken away.
-/

namespace ChainTypings.Spelling

open Text

/-- A segment of a path: a word that starts with a letter or an underscore. -/
structure Segment where
  first : Char
  others : List Char
  start : isSegmentStart first = true
  ascii : ∀ c ∈ others, isAsciiWordChar c = true

/-- A lifetime: a word of any script. -/
structure Lifetime where
  chars : List Char
  ne_nil : chars ≠ []
  word : ∀ c ∈ chars, isWordChar c = true

/-- Blanks between parts of a type text. -/
structure Blanks where
  chars : List Char
  blank : ∀ c ∈ chars, isBlank c = true

/-- A type text with decorations. -/
inductive Decorated where
  | name (path : List Segment) (word : AsciiWord)
  | unit
  | tuple (first second : Decorated) (others : List Decorated)
  | array (element : Decorated) (blanks : Blanks) (count : Numeral)
  | slice (element : Decorated)
  /-- A generic type. A box with one argument is a decoration of its own. -/
  | generic (path : List Segment) (head : AsciiWord) (not_box : head ≠ .box)
    (arguments : List Decorated)
  | box (path : List Segment) (content : Decorated)
  | reference (content : Decorated)
  /-- A reference with a lifetime, which at least one blank separates from what follows. -/
  | lifetime (word : Lifetime) (blanks : Blanks) (gap : blanks.chars ≠ []) (content : Decorated)
  | spaced (blanks : Blanks) (content : Decorated)

/-- The text of a path. -/
def pathChars (segments : List Segment) : List Char :=
  segments.flatMap fun s => s.first :: (s.others ++ [':', ':'])

namespace Decorated

/-- Induction on decorated texts, with a hypothesis for each element and each argument. -/
@[elab_as_elim, induction_eliminator]
theorem induction {motive : Decorated → Prop} (name : ∀ p w, motive (.name p w))
    (unit : motive .unit)
    (tuple : ∀ a b ds, motive a → motive b → (∀ d ∈ ds, motive d) → motive (.tuple a b ds))
    (array : ∀ d b n, motive d → motive (.array d b n))
    (slice : ∀ d, motive d → motive (.slice d))
    (generic : ∀ p h hb ds, (∀ d ∈ ds, motive d) → motive (.generic p h hb ds))
    (box : ∀ p d, motive d → motive (.box p d))
    (reference : ∀ d, motive d → motive (.reference d))
    (lifetime : ∀ l b h d, motive d → motive (.lifetime l b h d))
    (spaced : ∀ b d, motive d → motive (.spaced b d)) (d : Decorated) : motive d := by
  refine @Decorated.rec motive (fun ds => ∀ d ∈ ds, motive d) name unit tuple array slice
    generic box reference lifetime spaced (fun d hd => absurd hd List.not_mem_nil) ?_ d
  intro d ds hd hds e he
  rcases List.mem_cons.1 he with rfl | he
  · exact hd
  · exact hds e he

mutual

/-- The text as source code writes it. -/
def print : Decorated → List Char
  | name p w => pathChars p ++ w.chars
  | unit => ['(', ')']
  | tuple a b ds => '(' :: ([','].intercalate (print a :: print b :: printEach ds) ++ [')'])
  | array d b n => '[' :: (print d ++ ';' :: (b.chars ++ n.digits ++ [']']))
  | slice d => '[' :: (print d ++ [']'])
  | generic p h _ ds => pathChars p ++ h.chars ++ '<' :: ([','].intercalate (printEach ds) ++ ['>'])
  | box p d => pathChars p ++ AsciiWord.box.chars ++ '<' :: (print d ++ ['>'])
  | reference d => '&' :: print d
  | lifetime l b _ d => '&' :: '\'' :: (l.chars ++ b.chars ++ print d)
  | spaced b d => b.chars ++ print d

/-- The texts of several decorated types. -/
def printEach : List Decorated → List (List Char)
  | [] => []
  | d :: ds => print d :: printEach ds

end

mutual

/-- The phrase without any of the decorations. -/
def strip : Decorated → Phrase
  | name _ w => .name w
  | unit => .tuple []
  | tuple a b ds => .tuple (strip a :: strip b :: stripEach ds)
  | array d _ n => .array (strip d) n
  | slice d => .slice (strip d)
  | generic _ h _ ds => .generic h (stripEach ds)
  | box _ d => strip d
  | reference d => strip d
  | lifetime _ _ _ d => strip d
  | spaced _ d => strip d

/-- Several phrases without any of the decorations. -/
def stripEach : List Decorated → List Phrase
  | [] => []
  | d :: ds => strip d :: stripEach ds

end

end Decorated

end ChainTypings.Spelling
