import ChainTypings.Document.Lookup
import ChainTypings.Files.Tree
import ChainTypings.Metadata
import ChainTypings.Text.LineBreak

/-!
# Why a generation fails

Every cause for which a run writes no further document, and the line that reports it. A few causes
are values of a kind that no rule foresees; a run breaks off on them without a report.
-/

namespace ChainTypings

/-- Why a generation fails. -/
inductive Failure where
  | unreadable (e : FileError)
  | noText (fault : Text.Utf8.Fault)
  /-- The metadata file, named by its path, is no JSON. -/
  | malformed (path : Path) (e : Json.SyntaxError)
  | metadata (e : MetadataError)
  | registry (e : RegistryError)
  /-- The indices of the entries have no order. -/
  | unorderedIndices
  | render (e : RenderError)
  | unwritable (e : FileError)
  /-- There is no directory to write to. -/
  | noDirectory

/-- The kinds of report. -/
inductive ReportKind where
  | error
  | resolution
  | unsupported
  | internal
  deriving DecidableEq, Repr

/-- How a report of each kind starts. -/
def ReportKind.heading : ReportKind → String
  | error => "Error: "
  | resolution => "Resolution error: "
  | unsupported => "Unsupported type: "
  | internal => "Internal error: "

namespace Failure

/-- How a file error is reported. -/
def fileKind (e : FileError) : ReportKind :=
  if e.fault = .nullCharacter then .internal else .error

/-- How a metadata error is reported; versions of a wrong kind and infinite ones are not. -/
def metadataKind? : MetadataError → Option ReportKind
  | .version .wrongKind | .version .infinite => none
  | .version _ => some .internal
  | _ => some .error

/-- How a render error is reported; values that cannot be flags or indices are not. -/
def renderKind? : RenderError → Option ReportKind
  | .parse .badFlags => none
  | .parse e => some (if e.isResolution then .resolution else .internal)
  | .unusableIndex _ => none
  | .unsupported _ _ => some .unsupported
  | .endless => some .internal
  | _ => some .resolution

/-- How a failure is reported, if it is. -/
def kind? : Failure → Option ReportKind
  | unreadable e => some (fileKind e)
  | noText _ => some .internal
  | malformed _ _ => some .error
  | metadata e => metadataKind? e
  | registry (.unusableIndex _) => none
  | registry _ => some .error
  | unorderedIndices => none
  | render e => renderKind? e
  | unwritable e => some (fileKind e)
  | noDirectory => none

/-- The wording of a failure. -/
def message : Failure → String
  | unreadable e => e.message
  | noText fault => fault.message
  | malformed path e => "Malformed metadata JSON in " ++ path.text ++ ": " ++ e.message
  | metadata e => e.message
  | registry e => e.message
  | unorderedIndices => ""
  | render e => e.message
  | unwritable e => e.message
  | noDirectory => ""

/-- The line that reports a failure. -/
def report? (f : Failure) : Option String :=
  f.kind?.map fun k => k.heading ++ f.message ++ "\n"

end Failure

end ChainTypings
