import ChainTypings.Command.Config
import ChainTypings.Command.Plan
import ChainTypings.Command.Summary
import ChainTypings.Document.Errors

/-!
# Generation

The plan of a generation: read the metadata, make the registry, render each document that is
wanted and write it at once, and sum up. So a document is written before the next one is rendered.
-/

namespace ChainTypings

namespace Generate

/-- The file of the lookup document. -/
def lookupFile : String := "types-lookup.ts"

/-- The file of the errors document. -/
def errorsFile : String := "augment-api-errors.ts"

/-- The metadata that a text holds; `path` is where the text comes from. -/
def metadataOfText (path : Path) (text : String) : Except Failure Metadata :=
  match Json.read text with
  | .error e => .error (.malformed path e)
  | .ok v => (Metadata.ofJson v).mapError .metadata

/-- The metadata that the bytes of a file hold. -/
def metadataOfBytes (path : Path) (bytes : List UInt8) : Except Failure Metadata :=
  match Text.ofFileBytes bytes with
  | .error fault => .error (.noText fault)
  | .ok text => metadataOfText path text

/-- The names that definition files bring in. -/
def definedNames (ds : Definitions) : List String := ds.flatMap (·.2)

/-- What is said of a registry with so many types. -/
def registryLine (m : Metadata) (types : Nat) : String :=
  "  Registry: " ++ toString types ++ " types, " ++ toString m.pallets.length ++ " pallets (v" ++
    toString m.version ++ ")\n"

/-- The part of a plan that makes the registry known. -/
def registryPlan (m : Metadata) (r : Registry) : Plan :=
  match r.shapes? with
  | none => .fail .unorderedIndices
  | some shapes => .single (.say (registryLine m shapes.length))

/-- The part of a plan that writes a document, if there is a directory to write it to. -/
def writePlan (c : Config) (d : Document) : Plan :=
  match c.outputDir with
  | .path _ => .single (.write d)
  | .missing => .fail .noDirectory

/-- The part of a plan for the lookup document. -/
def lookupPlan (c : Config) (ds : Definitions) (r : Registry) : Plan :=
  match Lookup.source r ds with
  | .error .unorderedIndices => .fail .unorderedIndices
  | .error (.render e) => .fail (.render e)
  | .ok content => writePlan c ⟨lookupFile, content⟩

/-- The part of a plan for the errors document. -/
def errorsPlan (c : Config) (m : Metadata) (r : Registry) : Plan :=
  match ErrorModule.collect r m.pallets with
  | .error e => .fail (.render e)
  | .ok modules =>
    (Plan.single (.say ("  Errors: " ++ toString modules.length ++ " pallets\n"))).andThen
      (writePlan c ⟨errorsFile, ErrorModule.source c.strict modules⟩)

/-- The parts of a plan for the documents that are wanted. -/
def documentsPlan (c : Config) (ds : Definitions) (m : Metadata) (r : Registry) : Plan :=
  let lookup := if c.kind.any DocumentKind.wantsLookup then lookupPlan c ds r else ⟨[], none⟩
  let errors := if c.kind.any DocumentKind.wantsErrors then errorsPlan c m r else ⟨[], none⟩
  lookup.andThen errors

/-- What is said at the end. -/
def summary (c : Config) (m : Metadata) (documents : List Document) : String :=
  Summary.text (c.metadata.name ++ " (v" ++ toString m.version ++ ")") c.outputDir.text
    (documents.map fun d => (d.name, (Text.countBreaks d.content : Int)))

/-- The plan for metadata that have been read. -/
def metadataPlan (c : Config) (ds : Definitions) (m : Metadata) : Plan :=
  match Registry.ofShapes m.entries (definedNames ds) with
  | .error e => .fail (.registry e)
  | .ok r =>
    let documents := documentsPlan c ds m r
    (registryPlan m r).andThen (documents.andThen (.single (.say (summary c m documents.documents))))

/-- The plan of a generation, given what reading the metadata file came to. -/
def plan (c : Config) (ds : Definitions) (file : Except FileError (List UInt8)) : Plan :=
  let opening := Plan.single (.say ("Parsing: " ++ c.metadata.text ++ "\n"))
  match file with
  | .error e => opening.andThen (.fail (.unreadable e))
  | .ok bytes =>
    match metadataOfBytes c.metadata bytes with
    | .error f => opening.andThen (.fail f)
    | .ok m => opening.andThen (metadataPlan c ds m)

/-- The directory of a run; of no account where nothing can be written. -/
def directory (c : Config) : Path :=
  match c.outputDir with
  | .path p => p
  | .missing => .ofString ""

/-- Carries out a generation on files. -/
def run (c : Config) (ds : Definitions) (files : Tree) : Plan.Result :=
  (plan c ds (files.read c.metadata)).carryOut (directory c) files

end Generate

end ChainTypings
