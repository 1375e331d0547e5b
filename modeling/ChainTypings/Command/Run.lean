import ChainTypings.Command.Generate

/-!
# A run of the command line

Everything between the arguments and the exit code. Help ends a run well; a misused flag gives
code two, every other failure code one. What no rule foresees breaks a run off: what was said
until then has been said, and no report follows.
-/

namespace ChainTypings

/-- What a run breaks off on. -/
inductive Breakdown where
  | setup (e : SetupError)
  | generation (f : Failure)

/-- What a run comes to. -/
structure Outcome where
  exit : Nat
  out : String := ""
  err : String := ""
  files : Tree
  breakdown : Option Breakdown := none

namespace Run

/-- What a run without options comes to. -/
def unstarted (files : Tree) : NoOptions → Outcome
  | .help => { exit := 0, out := Options.helpText, files }
  | .misused e => { exit := 2, err := Options.errorText e, files }

/-- What a generation comes to. -/
def finished (r : Plan.Result) : Outcome :=
  match r.failure with
  | none => { exit := 0, out := r.said, files := r.files }
  | some f =>
    match f.report? with
    | some line => { exit := 1, out := r.said ++ line, files := r.files }
    | none => { exit := 1, out := r.said, files := r.files, breakdown := some (.generation f) }

/-- What a run that cannot be set up comes to. -/
def notSetUp (files : Tree) : SetupError → Outcome
  | .config e => { exit := 1, out := e.report, files }
  | e => { exit := 1, files, breakdown := some (.setup e) }

/-- What a run with a configuration comes to. -/
def configured (files : Tree) (c : Config) : Outcome :=
  match c.definitions files.read with
  | .error e => notSetUp files e
  | .ok ds => finished (Generate.run c ds files)

/-- What a run comes to, given its arguments and the files. -/
def ofArguments (args : List String) (files : Tree) : Outcome :=
  match Options.ofArguments args with
  | .error e => unstarted files e
  | .ok o =>
    match Config.ofOptions files.isPresent o with
    | .error e => notSetUp files e
    | .ok c => configured files c

end Run

end ChainTypings
