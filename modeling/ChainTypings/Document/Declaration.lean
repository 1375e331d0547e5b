import ChainTypings.Render.Shape
import ChainTypings.Text.Words

/-!
# Declarations

A named entry of the registry is declared as an interface. A structure extends `Struct` and has a
member for each field; an enumeration extends `Enum` and has, for each variant, a member that
tells whether it is the one and, if it holds something, a member for that, and last the union of
the variant names. Any other shape extends what it is rendered as and has no members.
-/

namespace ChainTypings

/-- The type of a member of an interface. -/
inductive MemberType where
  | expr (e : Expr)
  | boolean
  /-- One of the names of an enumeration's variants. -/
  | variants (names : List String)

namespace MemberType

/-- The text of a member's type. -/
def print : MemberType → String
  | expr e => e.print .multiLine
  | boolean => "boolean"
  | variants [] => "never"
  | variants names => String.intercalate " | " (names.map fun n => "'" ++ n ++ "'")

end MemberType

/-- The interface that declares a registry entry. -/
structure Declaration where
  index : Json
  name : String
  base : Expr
  members : List (String × MemberType)

namespace Declaration

/-- An interface with the text of its members; one without members has an empty body. -/
def interfaceText (index : Json) (name base body : String) : String :=
  let place := if index.isNull then "" else " (" ++ index.bare ++ ")"
  let opening := if body.isEmpty then "\x7b" else "\x7b\n"
  "/** @name " ++ name ++ place ++ " */\nexport interface " ++ name ++ " extends " ++ base ++
    " " ++ opening ++ body ++ "\x7d"

/-- The line of a member. -/
def memberLine (m : String × MemberType) : String :=
  "  readonly " ++ m.1 ++ ": " ++ m.2.print ++ ";\n"

/-- The text of a declaration. -/
def print (d : Declaration) : String :=
  interfaceText d.index d.name (d.base.print .multiLine) (String.join (d.members.map memberLine))

/-! ## Members -/

/-- The parts of a shape that has a list beneath, rendered by following indirections. -/
def parts (s : Scope) (shape : Shape) : Trail (List Part) :=
  match shape with
  | .leaf _ => return []
  | .group _ cs => return cs.map fun c => ⟨c.head, s.render c⟩
  | .single _ _ => .fail (.unsupported shape .expectedList)

/-- The key of a field: its name in camel case, or its place. -/
def fieldKey (index : Nat) (h : Head) : String :=
  match h.label? with
  | some name => Text.camel name
  | none => Scope.placeKey index

/-- The members of a structure, the first field being at place `index`. -/
def fields (s : Scope) : Nat → List Part → Trail (List (String × MemberType))
  | _, [] => return []
  | index, p :: ps => do
    let type ← s.renderMember p
    let rest ← fields s (index + 1) ps
    return (fieldKey index p.head, .expr type) :: rest

/-- The members of the variants of an enumeration, which must all have names. -/
def variantMembers (s : Scope) (shape : Shape) :
    List Part → Trail (List (String × MemberType))
  | [] => return []
  | p :: ps =>
    match p.head.label? with
    | none => .fail (.unsupported shape .unnamedVariant)
    | some label => do
      let name := Text.pascal label
      let held ←
        if p.head.tag = .null then pure []
        else do
          let type ← s.renderMember p
          pure [("as" ++ name, MemberType.expr type)]
      let rest ← variantMembers s shape ps
      return ("is" ++ name, .boolean) :: held ++ rest

/-- The names of variants. -/
def variantNames (ps : List Part) : List String :=
  ps.filterMap fun p => p.head.label?.map Text.pascal

/-! ## The declaration of an entry -/

/-- Declares a registry entry. -/
def ofShape (s : Scope) (shape : Shape) : Trail Declaration :=
  let h := shape.head
  let name := h.alias?.getD ""
  match h.tag with
  | .struct => do
    s.mention "Struct"
    let ps ← parts s shape
    let members ← fields s 0 ps
    return { index := h.lookupIndex, name, base := .name "Struct", members }
  | .enum => do
    s.mention "Enum"
    let ps ← parts s shape
    let members ← variantMembers s shape ps
    let union := ("type", MemberType.variants (variantNames ps))
    return { index := h.lookupIndex, name, base := .name "Enum", members := members ++ [union] }
  | _ => do
    let base ← s.render shape.anonymous none
    return { index := h.lookupIndex, name, base, members := [] }

end Declaration

end ChainTypings
