import ChainTypings.Document.Errors
import ChainTypings.Number.Integer
import ChainTypings.Shape.Description

/-!
# Metadata documents

The decoded metadata of a chain: its version, the entries of its registry and its pallets. The
document is looked at in a fixed order, so that of several faults the same one is always reported:
the two lists, the version, the entries, the pallets.
-/

namespace ChainTypings

/-- Why a version is no integer. -/
inductive VersionError where
  | notInteger (text : String)
  | notNumber
  | infinite
  /-- Null, a list or an object. -/
  | wrongKind

/-- Why a JSON value is no metadata document. -/
inductive MetadataError where
  | notObject (kind : String)
  | notLists
  | version (cause : VersionError)
  | entry (cause : DescriptionError)
  | badPallet (pallet : Json)
  | badErrors (name : String) (errors : Json)

namespace MetadataError

/-- The wording of a metadata error. A version that is infinite or of a wrong kind has none. -/
def message : MetadataError → String
  | notObject kind => "Metadata root must be an object, got " ++ kind
  | notLists => "Metadata 'lookup' and 'pallets' must be lists"
  | version (.notInteger text) => notNumberMessage text
  | version .notNumber => "cannot convert float NaN to integer"
  | version _ => ""
  | entry cause => cause.message
  | badPallet pallet => "Pallet entry must be an object with a name: " ++ pallet.shown
  | badErrors name errors =>
    "Pallet '" ++ name ++ "' errors must be a lookup index, got " ++ errors.shown

end MetadataError

/-- The decoded metadata of a chain. -/
structure Metadata where
  version : Int
  entries : List Shape
  pallets : List Pallet

namespace Metadata

/-- The integer that a version stands for: digits after a point are dropped, and the truth values
count as one and zero. -/
def versionOf : Json → Except VersionError Int
  | .int n => .ok n
  | .bool b => .ok (if b then 1 else 0)
  | .float .nan => .error .notNumber
  | .float (.infinite _) => .error .infinite
  | .float (.finite negative mantissa exponent) =>
    .ok (Binary64.truncate negative mantissa exponent)
  | .str s =>
    match Number.integer? s.toList with
    | some n => .ok n
    | none => .error (.notInteger s)
  | _ => .error .wrongKind

/-- Whether a value may be the place of a pallet's error type. -/
def isPlace : Json → Bool
  | .null => true
  | .int _ => true
  | .bool _ => true
  | _ => false

/-- Reads a pallet. -/
def palletOf (v : Json) : Except MetadataError Pallet :=
  match v with
  | .obj fields =>
    match Json.field "name" fields with
    | .str name =>
      let errors := Json.field "errors" fields
      if isPlace errors then .ok { name, errors } else .error (.badErrors name errors)
    | _ => .error (.badPallet v)
  | _ => .error (.badPallet v)

/-- Reads pallets, in order, up to the first that cannot be read. -/
def palletsOf : List Json → Except MetadataError (List Pallet)
  | [] => .ok []
  | v :: rest =>
    match palletOf v with
    | .error e => .error e
    | .ok p =>
      match palletsOf rest with
      | .ok ps => .ok (p :: ps)
      | .error e => .error e

/-- The items of a field that must be a list; a missing field stands for none. -/
def listField (key : String) (fields : List (String × Json)) : Except MetadataError (List Json) :=
  match fields.lookup key with
  | none => .ok []
  | some (.arr items) => .ok items
  | some _ => .error .notLists

/-- Reads a metadata document. -/
def ofJson (v : Json) : Except MetadataError Metadata :=
  match v with
  | .obj fields => do
    let lookup ← listField "lookup" fields
    let pallets ← listField "pallets" fields
    let version ← (versionOf ((fields.lookup "version").getD (.int 14))).mapError .version
    let entries ← (Shape.ofJsonList lookup).mapError .entry
    let pallets ← palletsOf pallets
    .ok { version, entries, pallets }
  | _ => .error (.notObject v.kind)

end Metadata

/-! ## Annotations -/

/-- Whether the annotations are of the kinds that they are declared with, so far as they are there:
the names and the documentation texts, the index an integer or a truth value. Descriptions are read
without a look at this. -/
def Head.isTyped (h : Head) : Bool :=
  [h.lookupName, h.name, h.typeName].all (fun v => v.isNull || v.text?.isSome) &&
    Metadata.isPlace h.lookupIndex && h.docs.all fun v => v.text?.isSome

/-- A name of the declared kind reads as missing if and only if it holds nothing. -/
theorem Head.alias?_eq_none_iff {h : Head} (htyped : h.isTyped = true) :
    h.alias? = none ↔ h.lookupName.isEmpty = true := by
  simp only [isTyped, List.all_cons, Bool.and_eq_true] at htyped
  obtain ⟨⟨⟨hkind, -⟩, -⟩, -⟩ := htyped
  rw [alias?]
  revert hkind
  cases h.lookupName with
  | null => simp [Json.label?, Json.isEmpty]
  | str s => simp [Json.label?, Json.isEmpty]
  | _ => simp [Json.isNull, Json.text?]

end ChainTypings
