import ChainTypings.Registry
import ChainTypings.Render.Expr
import ChainTypings.Render.Label

/-!
# Rendering shapes

A shape is rendered as a type expression by the rule of its tag, and the names that the expression
needs are mentioned on the way. The rule of a tag is given the shapes beneath already as parts
that it may render, so that rendering a shape is one fold over it (`renderShape`).

An indirection is rendered by rendering the entry that it leads to. How many indirections may be
followed one inside the other is bounded by the count of entries: on a longer path some entry lies
twice, so rendering it would never end.
-/

namespace ChainTypings

open Import

/-- What rendering looks up: the registry, and the names that the document declares itself. -/
structure Scope where
  registry : Registry
  ignored : List String

/-- A shape beneath another, ready to be rendered under a hint. -/
structure Part where
  head : Head
  render : Option String → Trail Expr

/-- What stands beneath a shape, ready to be rendered. -/
inductive Parts where
  | none
  | one (p : Part)
  | many (ps : List Part)

namespace Scope

/-- Mentions the names of a type. -/
def mention (s : Scope) (type : String) : Trail Unit := mentionsOf s.ignored type

/-- Mentions the declared names of parts. -/
def mentionAliases (s : Scope) (ps : List Part) : Trail Unit :=
  mentionsAll s.ignored (ps.filterMap fun p => p.head.alias?)

/-- A type under the label of a name for readers, if it is given one. -/
def named (s : Scope) (type : String) (typeName : Option String) : Trail Expr :=
  match typeName.bind (Label.labelFor? type) with
  | some label => do
    s.mention "As"
    return .labelled label type
  | none => return .name type

/-- A part by its declared name, else rendered under a hint. -/
def argument (p : Part) (hint : Option String) : Trail Expr :=
  match p.head.alias? with
  | some name => return .name name
  | none => p.render hint

/-- A wrapper around the one part beneath. -/
def wrap (s : Scope) (shape : Shape) (parts : Parts) (wrapper : String) (hint : Option String) :
    Trail Expr :=
  match parts with
  | .one p => do
    s.mention wrapper
    s.mentionAliases [p]
    return .wrap wrapper (← argument p hint)
  | _ => .fail (.unsupported shape .expectedOne)

/-- The parts of a list; a shape with nothing beneath has none. -/
def listed (shape : Shape) : Parts → Trail (List Part)
  | .none => return []
  | .many ps => return ps
  | .one _ => .fail (.unsupported shape .expectedList)

/-- A wrapper around two parts. -/
def wrapTwo (s : Scope) (shape : Shape) (parts : Parts) (wrapper : String) : Trail Expr := do
  match ← listed shape parts with
  | [a, b] => do
    s.mention wrapper
    s.mentionAliases [a, b]
    let first ← argument a none
    let second ← argument b none
    return .wrapTwo wrapper first second
  | _ => .fail (.unsupported shape .expectedTwo)

/-- A field or element: its declared name under the label of its name for readers, else
rendered with that name as the hint. -/
def renderMember (s : Scope) (p : Part) : Trail Expr :=
  match p.head.alias? with
  | some name => do
    s.mention name
    s.named name p.head.hint?
  | none => p.render p.head.hint?

/-- The key of a field that has no name: its place among the fields. -/
def placeKey (index : Nat) : String := "unknown" ++ toString index

/-- The fields of a structure with their keys, the first of them at place `index`. -/
def renderFields (s : Scope) : Nat → List Part → Trail (List (String × Expr))
  | _, [] => return []
  | index, p :: ps => do
    let type ← s.renderMember p
    let rest ← renderFields s (index + 1) ps
    return (p.head.label?.getD (placeKey index), type) :: rest

/-- A name under which a shape is declared, else what its rule gives. -/
def aliasOr (h : Head) (rule : Trail Expr) : Trail Expr :=
  match h.alias? with
  | some name => return .name name
  | none => rule

/-- The place of the entry that an indirection leads to: its index, else the number in its type
text. -/
def targetIndex (h : Head) : Except RenderError Json :=
  match h.lookupIndex with
  | .null =>
    match Construct.lookupNumber? h.type.toList with
    | some n => .ok (.int n)
    | none => .error (.noIndex h.type)
  | index => .ok index

/-- The entry at an index. -/
def lookup (r : Registry) (index : Json) : Except RenderError Shape :=
  match index.key? with
  | none => .error (.unusableIndex index)
  | some key =>
    match Registry.find? r.entries key with
    | some s => .ok s
    | none => .error (.unknownIndex index)

/-- The entry that an indirection leads to. -/
def target (s : Scope) (h : Head) : Except RenderError Shape :=
  match targetIndex h with
  | .ok index => lookup s.registry index
  | .error e => .error e

/-- The rule of a shape's tag. `follow` renders the entry that an indirection leads to. -/
def rule (s : Scope) (follow : Shape → Trail Expr) (shape : Shape) (parts : Parts)
    (hint : Option String) : Trail Expr :=
  let h := shape.head
  match h.tag with
  | .compact => s.wrap shape parts "Compact" hint
  | .option => s.wrap shape parts "Option" (Label.optionHint hint)
  | .vec => s.wrap shape parts "Vec" none
  | .vecFixed =>
    match parts with
    | .one p =>
      if p.head.type = "u8" then do
        s.mention "U8aFixed"
        return .name "U8aFixed"
      else s.wrap shape parts "Vec" none
    | _ => .fail (.unsupported shape .expectedOne)
  | .bTreeSet => s.wrap shape parts "BTreeSet" none
  | .linkage => s.wrap shape parts "Linkage" none
  | .wrapperOpaque => s.wrap shape parts "WrapperOpaque" none
  | .bTreeMap => s.wrapTwo shape parts "BTreeMap"
  | .hashMap => s.wrapTwo shape parts "HashMap"
  | .result => s.wrapTwo shape parts "Result"
  | .doNotConstruct => do
    s.mention "DoNotConstruct"
    return .name "DoNotConstruct"
  | .null => do
    s.mention "Null"
    return .name "Null"
  | .enum => aliasOr h (.fail (.unsupported shape .noRule))
  | .plain =>
    aliasOr h do
      s.mention h.type
      s.named h.type hint
  | .struct =>
    aliasOr h do
      let ps ← listed shape parts
      s.mention "Struct"
      s.mentionAliases ps
      return .struct (← s.renderFields 0 ps)
  | .tuple =>
    aliasOr h do
      let ps ← listed shape parts
      s.mention "ITuple"
      s.mentionAliases ps
      return .tuple (← Trail.mapEach s.renderMember ps)
  | .si =>
    match s.target h with
    | .ok entry => follow entry
    | .error e => .fail e
  | .int => .fail (.unsupported shape .noRule)
  | .uInt => .fail (.unsupported shape .noRule)
  | .range => .fail (.unsupported shape .noRule)
  | .set => .fail (.unsupported shape .noRule)

mutual

/-- Renders a shape under a hint: mentions how it is referred to and applies the rule of its
tag. -/
def renderShape (s : Scope) (follow : Shape → Trail Expr) :
    Shape → Option String → Trail Expr
  | .leaf h, hint => do
    s.mention h.reference
    s.rule follow (.leaf h) .none hint
  | .single h c, hint => do
    s.mention h.reference
    s.rule follow (.single h c) (.one ⟨c.head, renderShape s follow c⟩) hint
  | .group h cs, hint => do
    s.mention h.reference
    s.rule follow (.group h cs) (.many (renderParts s follow cs)) hint

/-- The shapes of a group as parts. -/
def renderParts (s : Scope) (follow : Shape → Trail Expr) : List Shape → List Part
  | [] => []
  | c :: cs => ⟨c.head, renderShape s follow c⟩ :: renderParts s follow cs

end

/-- Renders a shape when at most `hops` indirections may be followed one inside the other. -/
def renderWithin (s : Scope) : Nat → Shape → Option String → Trail Expr
  | 0 => s.renderShape fun _ => .fail .endless
  | hops + 1 => s.renderShape fun entry => renderWithin s hops entry none

/-- Renders a shape under a hint. -/
def render (s : Scope) (shape : Shape) (hint : Option String) : Trail Expr :=
  s.renderWithin s.registry.entries.length shape hint

end Scope

end ChainTypings
