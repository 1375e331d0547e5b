import ChainTypings.Command.Run

/-!
# The program

Carries runs of the command line out on the system's own files. It looks whether the paths are
there, reads, makes directories and writes as plans say; all else is decided by the library.
-/

namespace ChainTypings.Program

/-- Whether a code of the system is the given one, with or without a sign in front. -/
def isCode (n code : UInt32) : Bool := code = n ∨ code = 0 - n

/-- The fault that an error of the system stands for, if it is one that paths can have. -/
def fault? : IO.Error → Option FileFault
  | .noFileOrDirectory _ _ _ => some .notFound
  | .alreadyExists _ _ _ => some .alreadyThere
  | .inappropriateType _ code _ => some (if isCode 20 code then .notDirectory else .isDirectory)
  | .invalidArgument _ code _ => if isCode 36 code then some .nameTooLong else none
  | _ => none

/-- What an action on a path comes to; an error of another kind is passed on. -/
def attempt {α : Type} (p : Path) (action : IO α) : IO (Except FileError α) := do
  match ← action.toBaseIO with
  | .ok a => return .ok a
  | .error e =>
    match fault? e with
    | some fault => return .error ⟨fault, p⟩
    | none => throw e

/-- Whether a path leads to something. -/
def isPresent (p : Path) : IO Bool := do
  match ← (IO.FS.realPath p.text).toBaseIO with
  | .ok _ => return true
  | .error _ => return false

/-- Looks whether a path leads to something; one that is too long cannot be looked for. -/
def lookFor (p : Path) : IO (Except FileError Bool) := do
  if ← isPresent p then return .ok true
  match ← (IO.FS.Handle.mk p.text .read).toBaseIO with
  | .ok _ => return .ok true
  | .error e => return if fault? e = some .nameTooLong then .error ⟨.nameTooLong, p⟩ else .ok false

/-- Whether a path leads to a directory, which contains itself. -/
def isDirectory (p : Path) : IO Bool := isPresent { p with parts := p.parts ++ ["."] }

/-- The bytes of a file. -/
def readFile (p : Path) : IO (Except FileError (List UInt8)) := do
  if ← isDirectory p then return .error ⟨.isDirectory, p⟩
  return (← attempt p (IO.FS.readBinFile p.text)).map fun bytes => bytes.toList

/-- What making a directory comes to if one that is there already will do. -/
def tolerant (p : Path) : Except FileError Unit → IO (Except FileError Unit)
  | .ok () => return .ok ()
  | .error e => do if ← isDirectory p then return .ok () else return .error e

/-- Makes a directory and, where they are missing, those it lies in. The parts are given with the
last one first. -/
def makeUpwards (slashes : Nat) : List String → IO (Except FileError Unit)
  | [] => return .ok ()
  | part :: above => do
    let p : Path := ⟨slashes, (part :: above).reverse⟩
    match ← attempt p (IO.FS.createDir p.text) with
    | .error ⟨.notFound, _⟩ =>
      match ← makeUpwards slashes above with
      | .ok () => tolerant p (← attempt p (IO.FS.createDir p.text))
      | failed => return failed
    | made => tolerant p made

/-- Writes a document to a directory. -/
def writeDocument (directory : Path) (d : Document) : IO (Except FileError Unit) := do
  match ← makeUpwards directory.slashes directory.parts.reverse with
  | .error e => return .error e
  | .ok () =>
    let p := directory.join (.ofString d.name)
    attempt p (IO.FS.writeFile p.text d.content)

/-- Takes steps, in order, up to a write that fails. -/
def takeSteps (directory : Path) : List Step → IO (Option Failure)
  | [] => return none
  | .say text :: rest => do
    IO.print text
    takeSteps directory rest
  | .write d :: rest => do
    match ← writeDocument directory d with
    | .ok () => takeSteps directory rest
    | .error e => return some (.unwritable e)

/-- Carries out a plan, reports its failure if it has one, and gives the exit code. -/
def carryOut (p : Plan) (directory : Path) : IO UInt32 := do
  let stopped ← takeSteps directory p.steps
  match stopped.or p.failure with
  | none => return 0
  | some f =>
    IO.print (f.report?.getD "")
    return 1

/-- Shows what a run that ends before it writes comes to, and gives its exit code. -/
def report (outcome : Outcome) : IO UInt32 := do
  IO.print outcome.out
  IO.eprint outcome.err
  return outcome.exit.toUInt32

/-- Runs with a configuration. -/
def configured (c : Config) : IO UInt32 := do
  let extra ← readFile (c.extraTypes.getD c.metadata)
  match c.definitions fun _ => extra with
  | .error e => report (Run.notSetUp {} e)
  | .ok ds => carryOut (Generate.plan c ds (← readFile c.metadata)) (Generate.directory c)

/-- Runs with options. -/
def started (o : Options) : IO UInt32 := do
  let found ← (o.metadata.toList ++ o.extraTypes.toList).mapM fun v => do
    match v with
    | .path p => return (p, ← lookFor p)
    | .missing => return (Path.ofString "", .ok false)
  match Config.ofOptions (fun p => (found.lookup p).getD (.ok false)) o with
  | .error e => report (Run.notSetUp {} e)
  | .ok c => configured c

end ChainTypings.Program

open ChainTypings in
/-- Runs the command line. -/
def main (args : List String) : IO UInt32 := do
  match Options.ofArguments args with
  | .ok o => Program.started o
  | .error e => Program.report (Run.unstarted {} e)
