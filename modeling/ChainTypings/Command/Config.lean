import ChainTypings.Command.Options
import ChainTypings.Files.Tree
import ChainTypings.Import.Ledger
import ChainTypings.Json.Display
import ChainTypings.Json.Reader
import ChainTypings.Text.LineBreak

/-!
# The configuration of a run

Options become a configuration once the paths to be read are found to be there, and the file of
further types, if one is given, becomes the definition files of the run. What stands in the way is
as a rule a configuration error: a code, a message and, mostly, a hint. A path that cannot even be
looked for, and a path that is missing, are none: a run breaks off on them.

`requirePath_eq_ok_iff` says which paths pass.
-/

namespace ChainTypings

/-- The kinds of configuration error. -/
inductive ConfigCode where
  | missingMetadata
  | pathNotFound
  | invalidExtraTypes
  deriving DecidableEq, Repr

namespace ConfigCode

/-- The name of a code. -/
def name : ConfigCode → String
  | missingMetadata => "MISSING_METADATA"
  | pathNotFound => "PATH_NOT_FOUND"
  | invalidExtraTypes => "INVALID_EXTRA_TYPES"

/-- All codes. -/
def all : List ConfigCode := [missingMetadata, pathNotFound, invalidExtraTypes]

/-- The code of a name. -/
def ofName? (s : String) : Option ConfigCode := all.find? (·.name = s)

/-- The wording for a name that no code has. -/
def unknownMessage (s : String) : String := "Unknown config error code: " ++ s

end ConfigCode

/-- Why there is no configuration. -/
structure ConfigError where
  code : ConfigCode
  message : String
  hint : Option String := none
  deriving DecidableEq, Repr

namespace ConfigError

/-- The hint of a caller, unless it is empty or missing. -/
def hintOr (hint : Option String) (otherwise : String) : String :=
  match hint with
  | none | some "" => otherwise
  | some text => text

/-- No metadata file is named. -/
def noMetadata : ConfigError :=
  ⟨.missingMetadata, "--metadata is required.",
    some "Pass the decoded metadata file: --metadata /path/to/metadata.json"⟩

/-- A flag has no path. -/
def noPath (flag : String) (hint : Option String) : ConfigError :=
  ⟨.pathNotFound, flag ++ " is required: no path provided.",
    some (hintOr hint ("Pass the path explicitly: " ++ flag ++ " /path/to/resource"))⟩

/-- The path of a flag leads nowhere. -/
def notThere (flag : String) (path : Path) (hint : Option String) : ConfigError :=
  ⟨.pathNotFound, "Path for " ++ flag ++ " does not exist: " ++ path.text,
    some (hintOr hint "Provide an existing path for this flag.")⟩

/-- The file of further types is not as it should be. -/
def badExtraTypes (message : String) : ConfigError :=
  ⟨.invalidExtraTypes, message,
    some "Pass a JSON object mapping import paths to lists of type names."⟩

/-- What a run shows of a configuration error. -/
def report (e : ConfigError) : String :=
  let hint :=
    match e.hint with
    | none | some "" => ""
    | some text => "Hint: " ++ text ++ "\n"
  "Config error [" ++ e.code.name ++ "]: " ++ e.message ++ "\n" ++ hint

end ConfigError

/-- What a run works with. -/
structure Config where
  metadata : Path
  outputDir : PathValue
  kind : Option DocumentKind
  strict : Bool
  extraTypes : Option Path
  deriving DecidableEq, Repr

/-- Why a run cannot be set up. -/
inductive SetupError where
  | config (e : ConfigError)
  | unreadable (e : FileError)
  | noText (fault : Text.Utf8.Fault)
  /-- The flag is given without the path that it takes. -/
  | noValue (f : Flag)

namespace Config

/-- The path of a flag, if there is one that leads to something. -/
def requirePath (isPresent : Path → Except FileError Bool) (path : Option Path) (flag : String)
    (hint : Option String) : Except SetupError Path :=
  match path with
  | none => .error (.config (.noPath flag hint))
  | some p =>
    match isPresent p with
    | .ok true => .ok p
    | .ok false => .error (.config (.notThere flag p hint))
    | .error e => .error (.unreadable e)

/-- The path that a flag is given, if it leads to something. -/
def flagPath (isPresent : Path → Except FileError Bool) (f : Flag) :
    PathValue → Except SetupError Path
  | .missing => .error (.noValue f)
  | .path p => requirePath isPresent (some p) f.label none

/-- The path of the further types, if one is given. -/
def extraTypesPath (isPresent : Path → Except FileError Bool) :
    Option PathValue → Except SetupError (Option Path)
  | none => .ok none
  | some v => (flagPath isPresent .extraTypes v).map some

/-- The configuration that options ask for, `isPresent` telling which paths lead to something. -/
def ofOptions (isPresent : Path → Except FileError Bool) (o : Options) :
    Except SetupError Config :=
  match o.metadata with
  | none => .error (.config .noMetadata)
  | some v =>
    match flagPath isPresent .metadata v with
    | .error e => .error e
    | .ok metadata =>
      match extraTypesPath isPresent o.extraTypes with
      | .error e => .error e
      | .ok extraTypes =>
        .ok { metadata, outputDir := o.outputDir, kind := o.kind, strict := o.strict, extraTypes }

/-! ## Further types -/

/-- The items of a JSON list of texts. -/
def texts? : Json → Option (List String)
  | .arr items => items.mapM Json.text?
  | _ => none

/-- The definition files that the fields of an object list. -/
def definitionsOfFields : List (String × Json) → Except ConfigError Definitions
  | [] => .ok []
  | (file, names) :: rest =>
    match texts? names with
    | none => .error (.badExtraTypes ("Type names for '" ++ file ++ "' must be a list of strings."))
    | some names =>
      match definitionsOfFields rest with
      | .ok ds => .ok ((file, names) :: ds)
      | .error e => .error e

/-- The definition files that a JSON text lists; `path` is where the text comes from. -/
def definitionsOfText (path : Path) (text : String) : Except ConfigError Definitions :=
  match Json.read text with
  | .error e =>
    .error (.badExtraTypes ("Malformed JSON in " ++ path.text ++ ": " ++ e.message))
  | .ok (.obj fields) => definitionsOfFields fields
  | .ok v =>
    .error (.badExtraTypes ("Expected a JSON object in " ++ path.text ++ ", got " ++ v.kind))

/-- The definition files of a run, `read` giving the bytes of a file; none without further
types. -/
def definitions (read : Path → Except FileError (List UInt8)) (c : Config) :
    Except SetupError Definitions :=
  match c.extraTypes with
  | none => .ok []
  | some path =>
    match read path with
    | .error e => .error (.unreadable e)
    | .ok bytes =>
      match Text.ofFileBytes bytes with
      | .error fault => .error (.noText fault)
      | .ok text => (definitionsOfText path text).mapError .config

theorem requirePath_eq_ok_iff {isPresent : Path → Except FileError Bool} {path : Option Path}
    {flag : String} {hint : Option String} {p : Path} :
    requirePath isPresent path flag hint = .ok p ↔ path = some p ∧ isPresent p = .ok true := by
  unfold requirePath
  constructor
  · intro h
    split at h
    · cases h
    · split at h <;> cases h
      next hp => exact ⟨rfl, hp⟩
  · rintro ⟨rfl, hp⟩
    simp only [hp]

end Config

end ChainTypings
