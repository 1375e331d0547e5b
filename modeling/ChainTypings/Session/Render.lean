import ChainTypings.Render.Format
import ChainTypings.Session.Recording

/-!
# Rendering on a ledger

The rules by which a shape is rendered, as they work on the ledger of a document: whatever a rule
needs is recorded at the point where the rule meets it. The rules themselves are those of
`Scope.rule`.
-/

namespace ChainTypings.Recording

/-- A shape beneath another, ready to be rendered under a hint. -/
structure Part where
  head : Head
  render : Option String → Recording Expr

/-- What stands beneath a shape, ready to be rendered. -/
inductive Parts where
  | none
  | one (p : Part)
  | many (ps : List Part)

/-- The declared names of parts. -/
def aliases (ps : List Part) : List (Option String) := ps.map fun p => p.head.alias?

/-- A type under the label of a name for readers, if it is given one. -/
def named (type : String) (typeName : Option String) : Recording Expr :=
  match typeName.bind (Label.labelFor? type) with
  | some label => do
    record "As"
    return .labelled label type
  | none => return .name type

/-- A part by its declared name, else rendered under a hint. -/
def argument (p : Part) (hint : Option String) : Recording Expr :=
  match p.head.alias? with
  | some name => return .name name
  | none => p.render hint

/-- A wrapper around the one part beneath. -/
def wrap (shape : Shape) (parts : Parts) (wrapper : String) (hint : Option String) :
    Recording Expr :=
  match parts with
  | .one p => do
    recordEach (some wrapper :: aliases [p])
    return .wrap wrapper (← argument p hint)
  | _ => throw (.unsupported shape .expectedOne)

/-- The parts of a list; a shape with nothing beneath has none. -/
def listed (shape : Shape) : Parts → Recording (List Part)
  | .none => return []
  | .many ps => return ps
  | .one _ => throw (.unsupported shape .expectedList)

/-- A wrapper around two parts. -/
def wrapTwo (shape : Shape) (parts : Parts) (wrapper : String) : Recording Expr := do
  match ← listed shape parts with
  | [a, b] => do
    recordEach (some wrapper :: aliases [a, b])
    let first ← argument a none
    let second ← argument b none
    return .wrapTwo wrapper first second
  | _ => throw (.unsupported shape .expectedTwo)

/-- A field or element: its declared name under the label of its name for readers, else
rendered with that name as the hint. -/
def renderMember (p : Part) : Recording Expr :=
  match p.head.alias? with
  | some name => do
    record name
    named name p.head.hint?
  | none => p.render p.head.hint?

/-- The fields of a structure with their keys, the first of them at place `index`. -/
def renderFields : Nat → List Part → Recording (List (String × Expr))
  | _, [] => return []
  | index, p :: ps => do
    let type ← renderMember p
    let rest ← renderFields (index + 1) ps
    return (p.head.label?.getD (Scope.placeKey index), type) :: rest

/-- A name under which a shape is declared, else what its rule gives. -/
def aliasOr (h : Head) (rule : Recording Expr) : Recording Expr :=
  match h.alias? with
  | some name => return .name name
  | none => rule

/-- The entry that an indirection leads to. -/
def target (r : Registry) (h : Head) : Except RenderError Shape := do
  Scope.lookup r (← Scope.targetIndex h)

/-- The rule of a shape's tag. `follow` renders the entry that an indirection leads to. -/
def rule (r : Registry) (follow : Shape → Recording Expr) (shape : Shape) (parts : Parts)
    (hint : Option String) : Recording Expr :=
  let h := shape.head
  match h.tag with
  | .compact => wrap shape parts "Compact" hint
  | .option => wrap shape parts "Option" (Label.optionHint hint)
  | .vec => wrap shape parts "Vec" none
  | .vecFixed =>
    match parts with
    | .one p =>
      if p.head.type = "u8" then do
        record "U8aFixed"
        return .name "U8aFixed"
      else wrap shape parts "Vec" none
    | _ => throw (.unsupported shape .expectedOne)
  | .bTreeSet => wrap shape parts "BTreeSet" none
  | .linkage => wrap shape parts "Linkage" none
  | .wrapperOpaque => wrap shape parts "WrapperOpaque" none
  | .bTreeMap => wrapTwo shape parts "BTreeMap"
  | .hashMap => wrapTwo shape parts "HashMap"
  | .result => wrapTwo shape parts "Result"
  | .doNotConstruct => do
    record "DoNotConstruct"
    return .name "DoNotConstruct"
  | .null => do
    record "Null"
    return .name "Null"
  | .enum => aliasOr h (throw (.unsupported shape .noRule))
  | .plain =>
    aliasOr h do
      record h.type
      named h.type hint
  | .struct =>
    aliasOr h do
      let ps ← listed shape parts
      recordEach (some "Struct" :: aliases ps)
      return .struct (← renderFields 0 ps)
  | .tuple =>
    aliasOr h do
      let ps ← listed shape parts
      recordEach (some "ITuple" :: aliases ps)
      return .tuple (← ps.mapM renderMember)
  | .si => do follow (← MonadExcept.ofExcept (target r h))
  | .int | .uInt | .range | .set => throw (.unsupported shape .noRule)

mutual

/-- Renders a shape under a hint: records how it is referred to and applies the rule of its
tag. -/
def renderShape (r : Registry) (follow : Shape → Recording Expr) :
    Shape → Option String → Recording Expr
  | .leaf h, hint => do
    record h.reference
    rule r follow (.leaf h) .none hint
  | .single h c, hint => do
    record h.reference
    rule r follow (.single h c) (.one ⟨c.head, renderShape r follow c⟩) hint
  | .group h cs, hint => do
    record h.reference
    rule r follow (.group h cs) (.many (renderParts r follow cs)) hint

/-- The shapes of a group as parts. -/
def renderParts (r : Registry) (follow : Shape → Recording Expr) : List Shape → List Part
  | [] => []
  | c :: cs => ⟨c.head, renderShape r follow c⟩ :: renderParts r follow cs

end

/-- Renders a shape when at most `hops` indirections may be followed one inside the other. -/
def renderWithin (r : Registry) : Nat → Shape → Option String → Recording Expr
  | 0 => renderShape r fun _ => throw .endless
  | hops + 1 => renderShape r fun entry => renderWithin r hops entry none

/-- Renders a shape under a hint. -/
def render (r : Registry) (shape : Shape) (hint : Option String) : Recording Expr :=
  renderWithin r r.entries.length shape hint

/-- The expression of a type, for the given layout. -/
def expression (r : Registry) (layout : Layout) (input : TypeInput) (hint : Option String) :
    Recording Expr :=
  match input with
  | .shape shape => render r shape hint
  | .text t =>
    if layout = .oneLine ∧ Shortcut.isShortcut t.toList then return .name t
    else do render r (← MonadExcept.ofExcept (r.resolve t)) hint

/-- The text of a type in the given layout. -/
def format (r : Registry) (layout : Layout) (input : TypeInput) (hint : Option String) :
    Recording String := do
  let e ← expression r layout input hint
  return e.print layout

end ChainTypings.Recording
