import ChainTypings.Command.Flag
import ChainTypings.Files.Path
import ChainTypings.Text.Quoted

/-!
# The command line

What the arguments of a run ask for. The first fault from the left is reported, but a flag that is
short for several is one before all others, and arguments that nothing takes come last. A flag
given twice has its last value. A value of two hyphens is taken for the end of the flags, even
behind an equals sign, so that its flag is given and has no value.
-/

namespace ChainTypings

/-- Which documents are to be generated. -/
inductive DocumentKind where
  | lookup
  | errors
  | all
  deriving DecidableEq, Repr

namespace DocumentKind

/-- The names of the kinds. -/
def names : List (String × DocumentKind) := [("lookup", .lookup), ("errors", .errors), ("all", .all)]

/-- The name of a kind. -/
def name : DocumentKind → String
  | lookup => "lookup"
  | errors => "errors"
  | all => "all"

/-- The kind of a name. -/
def ofName? (s : String) : Option DocumentKind := names.lookup s

/-- Whether the lookup document is wanted. -/
def wantsLookup (k : DocumentKind) : Bool := k ≠ .errors

/-- Whether the errors document is wanted. -/
def wantsErrors (k : DocumentKind) : Bool := k ≠ .lookup

end DocumentKind

/-- What is wrong with a command line. -/
inductive UsageError where
  | ambiguous (arg : String) (spellings : List String)
  | missingValue (f : Flag)
  | unwantedValue (f : Flag) (value : String)
  | unknownKind (value : String)
  | unrecognized (args : List String)
  deriving DecidableEq, Repr

/-- The wording of a usage error. -/
def UsageError.message : UsageError → String
  | ambiguous arg spellings =>
    "ambiguous option: " ++ arg ++ " could match " ++ String.intercalate ", " spellings
  | missingValue f => "argument " ++ f.label ++ ": expected one argument"
  | unwantedValue f value =>
    "argument " ++ f.label ++ ": ignored explicit argument " ++ Text.quote value
  | unknownKind value =>
    "argument " ++ Flag.kind.label ++ ": invalid choice: " ++ Text.quote value ++ " (choose from " ++
      String.intercalate ", " (DocumentKind.names.map fun k => Text.quote k.1) ++ ")"
  | unrecognized args => "unrecognized arguments: " ++ String.intercalate " " args

/-- What a flag that takes a path was given. -/
inductive PathValue where
  | path (p : Path)
  | missing
  deriving DecidableEq, Repr

/-- Whether a value is only the end of the flags. -/
def isNoValue (value : String) : Bool := value = "--"

/-- The path that a value names. -/
def PathValue.ofString (value : String) : PathValue :=
  if isNoValue value then .missing else .path (.ofString value)

/-- The text of a path; a missing one is an empty list. -/
def PathValue.text : PathValue → String
  | path p => p.text
  | missing => "[]"

/-- What a run is asked for. -/
structure Options where
  metadata : Option PathValue := none
  outputDir : PathValue := .path ⟨0, ["src", "augment"]⟩
  /-- Without a kind no document is wanted. -/
  kind : Option DocumentKind := some .all
  strict : Bool := false
  extraTypes : Option PathValue := none
  deriving DecidableEq, Repr

/-- Why the arguments give no options. -/
inductive NoOptions where
  /-- Help is asked for. -/
  | help
  | misused (e : UsageError)
  deriving DecidableEq, Repr

namespace Options

/-- Takes a flag without a value. -/
def takeFlag (o : Options) : Flag → Except NoOptions Options
  | .help => .error .help
  | .strict => .ok { o with strict := true }
  | f => .error (.misused (.missingValue f))

/-- Takes a flag with a value. -/
def takeValue (o : Options) (f : Flag) (value : String) : Except NoOptions Options :=
  match f with
  | .metadata => .ok { o with metadata := some (.ofString value) }
  | .outputDir => .ok { o with outputDir := .ofString value }
  | .extraTypes => .ok { o with extraTypes := some (.ofString value) }
  | .kind =>
    if isNoValue value then .ok { o with kind := none }
    else
      match DocumentKind.ofName? value with
      | some k => .ok { o with kind := some k }
      | none => .error (.misused (.unknownKind value))
  | f => .error (.misused (.unwantedValue f value))

/-- Takes the arguments in order; those that nothing takes are gathered. -/
def takeAll : Options → List String → List (String × Reading) → Except NoOptions Options
  | o, [], [] => .ok o
  | _, left, [] => .error (.misused (.unrecognized left))
  | o, left, (_, .flag f (some value)) :: rest =>
    match o.takeValue f value with
    | .ok o => takeAll o left rest
    | .error e => .error e
  | o, left, (_, .flag f none) :: (value, .plain) :: rest =>
    if f.takesValue then
      match o.takeValue f value with
      | .ok o => takeAll o left rest
      | .error e => .error e
    else
      match o.takeFlag f with
      | .ok o => takeAll o (left ++ [value]) rest
      | .error e => .error e
  | o, left, (_, .flag f none) :: rest =>
    match o.takeFlag f with
    | .ok o => takeAll o left rest
    | .error e => .error e
  | o, left, (arg, _) :: rest => takeAll o (left ++ [arg]) rest

/-- The first argument that is short for several flags. -/
def ambiguity? (readings : List (String × Reading)) : Option UsageError :=
  readings.findSome? fun
    | (arg, .ambiguous spellings) => some (.ambiguous arg spellings)
    | _ => none

/-- What the arguments ask for. -/
def ofArguments (args : List String) : Except NoOptions Options :=
  let readings := Reading.ofArguments args
  match ambiguity? readings with
  | some e => .error (.misused e)
  | none => takeAll {} [] readings

/-! ## Texts -/

/-- The summary of the flags. -/
def usage : String :=
  "usage: typegen [-h] [--metadata METADATA] [--output-dir OUTPUT_DIR]\n" ++
  "               [--kind \x7blookup,errors,all\x7d] [--strict]\n" ++
  "               [--extra-types EXTRA_TYPES]\n"

/-- What help shows. -/
def helpText : String :=
  usage ++ "\nGenerate TypeScript type declarations from runtime metadata\n\noptions:\n" ++
  "  -h, --help            show this help message and exit\n" ++
  "  --metadata METADATA\n" ++
  "  --output-dir OUTPUT_DIR\n" ++
  "  --kind \x7blookup,errors,all\x7d\n" ++
  "  --strict\n" ++
  "  --extra-types EXTRA_TYPES\n"

/-- What a usage error shows. -/
def errorText (e : UsageError) : String := usage ++ "typegen: error: " ++ e.message ++ "\n"

end Options

end ChainTypings
