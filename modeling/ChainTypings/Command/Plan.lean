import ChainTypings.Command.Failure
import ChainTypings.Files.Write

/-!
# Plans

What a run says and writes, step by step, up to its end or to the failure that stops it. A plan
says nothing about the files that are there: carrying it out can still fail at a write.

`run_of_failure` says that after a failure nothing more is said or written.
-/

namespace ChainTypings

/-- A document with the name of its file. -/
structure Document where
  name : String
  content : String
  deriving DecidableEq, Repr

/-- A step of a run. -/
inductive Step where
  | say (text : String)
  | write (d : Document)
  deriving DecidableEq, Repr

/-- The steps of a run and the failure that stops it after them, if one does. -/
structure Plan where
  steps : List Step
  failure : Option Failure := none

namespace Plan

/-- The plan of one step. -/
def single (s : Step) : Plan := ⟨[s], none⟩

/-- The plan that fails at once. -/
def fail (f : Failure) : Plan := ⟨[], some f⟩

/-- The first plan and, unless it fails, the second. -/
def andThen (p q : Plan) : Plan :=
  match p.failure with
  | none => ⟨p.steps ++ q.steps, q.failure⟩
  | some f => ⟨p.steps, some f⟩

/-- The documents that a plan writes. -/
def documents (p : Plan) : List Document :=
  p.steps.filterMap fun
    | .write d => some d
    | .say _ => none

/-! ## Carrying out a plan -/

/-- How far a run has come: what it has said, the files, and the failure that stopped it. -/
structure Result where
  said : String
  files : Tree
  failure : Option Failure := none

/-- Takes one step, unless a failure has stopped the run. -/
def Result.step (directory : Path) (r : Result) : Step → Result
  | .say text =>
    match r.failure with
    | none => { r with said := r.said ++ text }
    | some _ => r
  | .write d =>
    match r.failure with
    | none =>
      match r.files.writeText directory d.name d.content with
      | (files, .ok _) => { r with files }
      | (files, .error e) => { r with files, failure := some (.unwritable e) }
    | some _ => r

/-- Takes steps, in order. -/
def Result.run (directory : Path) (steps : List Step) (r : Result) : Result :=
  steps.foldl (Result.step directory) r

/-- Carries out a plan, its documents going to a directory. -/
def carryOut (p : Plan) (directory : Path) (files : Tree) : Result :=
  let r := Result.run directory p.steps { said := "", files }
  match r.failure with
  | none => { r with failure := p.failure }
  | some _ => r

theorem run_of_failure {directory : Path} {steps : List Step} {r : Result}
    (h : r.failure ≠ none) : r.run directory steps = r := by
  induction steps with
  | nil => rfl
  | cons s steps ih =>
    have hs : r.step directory s = r := by
      cases hf : r.failure with
      | none => exact absurd hf h
      | some f => cases s <;> simp [Result.step, hf]
    simp only [Result.run, List.foldl_cons, hs]
    exact ih

end Plan

end ChainTypings
