import ChainTypings.Document.Declaration
import ChainTypings.Session.Render

/-!
# Sessions

A session is a sequence of calls on one ledger: names are recorded by hand, a name is given a
label, a type is formatted or an entry is declared. A call that fails leaves the ledger as it was
when it failed, and the next call goes on from there.
-/

namespace ChainTypings

namespace Recording

/-! ## Declarations on a ledger -/

/-- The parts of a shape that has a list beneath, rendered by following indirections. -/
def declared (r : Registry) (shape : Shape) : Recording (List Part) :=
  match shape with
  | .leaf _ => return []
  | .group _ cs => return cs.map fun c => ⟨c.head, render r c⟩
  | .single _ _ => throw (.unsupported shape .expectedList)

/-- The members of a structure, the first field being at place `index`. -/
def fields : Nat → List Part → Recording (List (String × MemberType))
  | _, [] => return []
  | index, p :: ps => do
    let type ← renderMember p
    let rest ← fields (index + 1) ps
    return (Declaration.fieldKey index p.head, .expr type) :: rest

/-- The members of the variants of an enumeration, which must all have names. -/
def variantMembers (shape : Shape) : List Part → Recording (List (String × MemberType))
  | [] => return []
  | p :: ps =>
    match p.head.label? with
    | none => throw (.unsupported shape .unnamedVariant)
    | some label => do
      let name := Text.pascal label
      let held ←
        if p.head.tag = .null then pure []
        else do
          let type ← renderMember p
          pure [("as" ++ name, MemberType.expr type)]
      let rest ← variantMembers shape ps
      return ("is" ++ name, .boolean) :: held ++ rest

/-- The names of variants. -/
def variantNames (ps : List Part) : List String :=
  ps.filterMap fun p => p.head.label?.map Text.pascal

/-- Declares a registry entry. -/
def declare (r : Registry) (shape : Shape) : Recording Declaration :=
  let h := shape.head
  let name := h.alias?.getD ""
  match h.tag with
  | .struct => do
    record "Struct"
    let ps ← declared r shape
    let members ← fields 0 ps
    return { index := h.lookupIndex, name, base := .name "Struct", members }
  | .enum => do
    record "Enum"
    let ps ← declared r shape
    let members ← variantMembers shape ps
    let union := ("type", MemberType.variants (variantNames ps))
    return { index := h.lookupIndex, name, base := .name "Enum", members := members ++ [union] }
  | _ => do
    let base ← render r shape.anonymous none
    return { index := h.lookupIndex, name, base, members := [] }

end Recording

/-! ## Calls -/

/-- A call on a ledger. -/
inductive Call where
  /-- Records the names of types, of which some may be missing. -/
  | record (types : List (Option String))
  /-- Gives a type the label of a name for readers. -/
  | label (type : String) (typeName : Option String)
  | format (registry : Registry) (layout : Layout) (input : TypeInput) (hint : Option String)
  | declare (registry : Registry) (shape : Shape)

/-- What a call does on the ledger; recording names gives no text. -/
def Call.recording : Call → Recording (Option String)
  | record types => do
    Recording.recordEach types
    return none
  | label type typeName => do
    let e ← Recording.named type typeName
    return e.print .multiLine
  | format registry layout input hint => do
    let text ← Recording.format registry layout input hint
    return text
  | declare registry shape => do
    let d ← Recording.declare registry shape
    return d.print

/-- The outcome of a call on a ledger. -/
def Call.outcome (c : Call) (l : Ledger) : Except RenderError (Option String) :=
  (c.recording.on l).1

namespace Ledger

/-- The ledger after a call, whether the call succeeds or fails. -/
def after (l : Ledger) (c : Call) : Ledger := (c.recording.on l).2

/-- The ledger after a session. -/
def afterAll (l : Ledger) (calls : List Call) : Ledger := calls.foldl after l

end Ledger

end ChainTypings
