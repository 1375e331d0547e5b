import ChainTypings.Import.Ledger
import ChainTypings.Import.Mention

/-!
# Recording

A recording is a computation on a ledger that may fail. It may read the ledger as well as add to
it, and the names that it added before a failure stay. `record` takes a type text apart on the
ledger itself, one name after the other.
-/

namespace ChainTypings

/-- A computation on a ledger that may fail; what it recorded by then stays recorded. -/
abbrev Recording := ExceptT RenderError (StateM Ledger)

namespace Recording

/-- How a recording ends on a ledger, and the ledger that it leaves. -/
def on {α : Type} (c : Recording α) (l : Ledger) : Except RenderError α × Ledger := c.run l

/-- Records a name unless the document declares it itself. -/
def note (name : String) : Recording Unit := do
  if (← get).ignored.contains name then return ()
  modify (·.record name)

/-- Records the names of a type text, compound types being parsed as told. -/
def recordBy (p : Import.Parser) (cs : List Char) : Recording Unit := do
  match Import.stepOf (← get).ignored cs with
  | .nothing => return ()
  | .name => modify (·.record (String.ofList cs))
  | .compound =>
    match _parsed : p.parse cs with
    | .error e => throw (.parse e)
    | .ok s =>
      note s.head.tag.name
      s.children.attach.forM fun ⟨child, _mem⟩ => recordBy p child.head.type.toList
termination_by Text.weight cs
decreasing_by exact p.lighter _parsed _mem

/-- Records the names of a type. -/
def record (type : String) : Recording Unit := recordBy Import.parser type.toList

/-- Records the names of several types, of which some may be missing. -/
def recordEach : List (Option String) → Recording Unit
  | [] => return ()
  | none :: types => recordEach types
  | some type :: types => do
    record type
    recordEach types

end Recording

end ChainTypings
