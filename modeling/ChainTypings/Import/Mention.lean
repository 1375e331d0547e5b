import ChainTypings.Import.Category
import ChainTypings.Render.Trail
import ChainTypings.Shape.Beneath

/-!
# The names in a type

Which names are mentioned with a type: a name itself, or for a compound type its tag and, in turn,
the names of the types beneath. Names that the document declares itself are left out, and so are
literals. A compound type that has no shape is an error.

The types beneath weigh less than the text (`Shape.weight_type_lt`), so the names of every text
are found in finitely many steps. `mentions_eq` is the equation of the recursion.
-/

namespace ChainTypings.Import

open Text

/-- Whether a text is a literal: it starts and ends with an apostrophe. -/
def isLiteral (cs : List Char) : Bool := cs.head? = some '\'' && cs.getLast? = some '\''

/-- Whether a text is a compound type rather than a name: it holds an angle bracket or a
parenthesis, or a square bracket but no bar. -/
def isCompound (cs : List Char) : Bool :=
  cs.contains '<' || cs.contains '(' || (cs.contains '[' && !cs.contains '|')

/-- Mentions a name unless the document declares it itself. -/
def note (ignored : List String) (name : String) : Trail Unit :=
  if ignored.contains name then .done () else .mention name

/-- What is to be done about a type text. -/
inductive Step where
  | nothing
  | name
  | compound
  deriving DecidableEq

/-- Decides what is to be done about a type text. -/
def stepOf (ignored : List String) (cs : List Char) : Step :=
  let name := String.ofList cs
  if cs.isEmpty || ignored.contains name then .nothing
  else if (Category.of? name).isSome then .name
  else if isLiteral cs then .nothing
  else if isCompound cs then .compound
  else .name

/-- Goes through the members of a list, each known to be one. -/
def forMembers {α : Type} {as : List α} (f : (a : α) → a ∈ as → Trail Unit) :
    (bs : List α) → (∀ b ∈ bs, b ∈ as) → Trail Unit
  | [], _ => .done ()
  | b :: bs, h =>
    (f b (h b (by simp))).andThen fun _ => forMembers f bs fun c hc => h c (by simp [hc])

theorem forMembers_eq {α : Type} {as : List α} (f : α → Trail Unit) (bs : List α)
    (h : ∀ b ∈ bs, b ∈ as) : forMembers (fun a _ => f a) bs h = Trail.forEach f bs := by
  induction bs with
  | nil => rfl
  | cons b bs ih => rw [forMembers, Trail.forEach, ih, Trail.bind_eq]

/-- A parser under which the types beneath a shape are lighter than its text. -/
structure Parser where
  parse : List Char → Except ParseError Shape
  lighter : ∀ {text : List Char} {s child : Shape},
    parse text = .ok s → child ∈ s.children → weight child.head.type.toList < weight text

/-- Mentions the names of a type text, compound types being parsed as told. -/
def mentionsBy (p : Parser) (ignored : List String) (cs : List Char) : Trail Unit :=
  match stepOf ignored cs with
  | .nothing => .done ()
  | .name => .mention (String.ofList cs)
  | .compound =>
    match _parsed : p.parse cs with
    | .error e => .fail (.parse e)
    | .ok s =>
      (note ignored s.head.tag.name).andThen fun _ =>
        forMembers (fun child (_mem : child ∈ s.children) =>
          mentionsBy p ignored child.head.type.toList) s.children fun _ h => h
termination_by weight cs
decreasing_by exact p.lighter _parsed _mem

theorem mentionsBy_eq (p : Parser) (ignored : List String) (cs : List Char) :
    mentionsBy p ignored cs =
      match stepOf ignored cs with
      | .nothing => .done ()
      | .name => .mention (String.ofList cs)
      | .compound =>
        match p.parse cs with
        | .error e => .fail (.parse e)
        | .ok s =>
          (note ignored s.head.tag.name).andThen fun _ =>
            Trail.forEach (fun child => mentionsBy p ignored child.head.type.toList)
              s.children := by
  rw [mentionsBy]
  split
  · rfl
  · rfl
  · split
    · next h => rw [h]
    · next h => simp only [h, forMembers_eq]

/-- The parser of type texts. -/
def parser : Parser := ⟨Shape.parse, Shape.weight_type_lt⟩

/-- Mentions the names of a type text, less those that the document declares itself. -/
def mentions (ignored : List String) (cs : List Char) : Trail Unit :=
  mentionsBy parser ignored cs

/-- A name is mentioned itself, a compound type by its tag and the types beneath. -/
theorem mentions_eq (ignored : List String) (cs : List Char) :
    mentions ignored cs =
      match stepOf ignored cs with
      | .nothing => .done ()
      | .name => .mention (String.ofList cs)
      | .compound =>
        match Shape.parse cs with
        | .error e => .fail (.parse e)
        | .ok s =>
          (note ignored s.head.tag.name).andThen fun _ =>
            Trail.forEach (fun child => mentions ignored child.head.type.toList) s.children :=
  mentionsBy_eq parser ignored cs

/-- Mentions the names of a type. -/
def mentionsOf (ignored : List String) (type : String) : Trail Unit :=
  mentions ignored type.toList

/-- Mentions the names of several types. -/
def mentionsAll (ignored : List String) (types : List String) : Trail Unit :=
  Trail.forEach (mentionsOf ignored) types

end ChainTypings.Import
