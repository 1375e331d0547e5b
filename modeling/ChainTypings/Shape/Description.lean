import ChainTypings.Json.Display
import ChainTypings.Shape.Basic

/-!
# Shape descriptions

The JSON form of a shape. Written, it has the fields in a fixed order and leaves out what is
absent; read, it must be an object with a known tag, a type text and a list of documentation
lines, while the remaining annotations are taken as they are.
-/

namespace ChainTypings

/-- Why a JSON value describes no shape. -/
inductive DescriptionError where
  | notObject (kind : String)
  | unknownTag (tag : Json)
  | noType (description : Json)
  | badDocs (type : String)

namespace DescriptionError

/-- The wording of a description error. -/
def message : DescriptionError → String
  | notObject kind => "Type definition must be an object, got " ++ kind
  | unknownTag tag => "Unknown type info tag: " ++ tag.shown
  | noType description => "Type definition " ++ description.shown ++ " has no string 'type'"
  | badDocs type => "Docs for " ++ Text.quote type ++ " must be a list of strings"

end DescriptionError

namespace Shape

/-! ## Writing -/

/-- A field that is left out when its value is absent. -/
def optionalField (key : String) (value : Json) : List (String × Json) :=
  if value.isNull then [] else [(key, value)]

/-- The fields of a description, around that of the shapes beneath. -/
def describe (h : Head) (sub : List (String × Json)) : Json :=
  .obj <|
    ("info", .str h.tag.name) :: ("type", .str h.type) ::
      optionalField "lookupName" h.lookupName ++ optionalField "lookupIndex" h.lookupIndex ++
      sub ++ optionalField "name" h.name ++ optionalField "typeName" h.typeName ++
      optionalField "length" h.length ++
      if h.docs.isEmpty then [] else [("docs", .arr h.docs)]

mutual

/-- The description of a shape. -/
def toJson : Shape → Json
  | leaf h => describe h []
  | single h c => describe h [("sub", c.toJson)]
  | group h cs => describe h [("sub", .arr (toJsonList cs))]

/-- The descriptions of several shapes. -/
def toJsonList : List Shape → List Json
  | [] => []
  | c :: cs => c.toJson :: toJsonList cs

end

/-- The description of a shape as one line of JSON. -/
def dump (s : Shape) : String := s.toJson.dump

/-! ## Reading -/

/-- What a description says to stand beneath a shape. -/
inductive Beneath where
  | nothing
  | one (s : Shape)
  | many (ss : List Shape)

/-- The shape of a head and what stands beneath it. -/
def ofBeneath (h : Head) : Beneath → Shape
  | .nothing => leaf h
  | .one s => single h s
  | .many ss => group h ss

/-- The head that the fields of a description give, its tag and type being read already. -/
def headOf (tag : Tag) (type : String) (docs : List Json) (fields : List (String × Json)) : Head :=
  { tag, type, docs
    lookupName := Json.field "lookupName" fields
    lookupIndex := Json.field "lookupIndex" fields
    name := Json.field "name" fields
    typeName := Json.field "typeName" fields
    length := Json.field "length" fields }

/-- The documentation lines of a description; a value that holds nothing stands for none. -/
def docsOf (type : String) (fields : List (String × Json)) : Except DescriptionError (List Json) :=
  let docs := Json.field "docs" fields
  if docs.isEmpty then .ok []
  else
    match docs with
    | .arr items => .ok items
    | _ => .error (.badDocs type)

mutual

/-- Reads a description. The tag is looked at first, then the type, what stands beneath, and the
documentation. -/
def ofJson : Json → Except DescriptionError Shape
  | .obj fields =>
    let tag := Json.field "info" fields
    match tag.text?.bind Tag.ofName? with
    | none => .error (.unknownTag tag)
    | some tag =>
      match Json.field "type" fields with
      | .str type =>
        match beneath fields with
        | .error e => .error e
        | .ok sub =>
          match docsOf type fields with
          | .error e => .error e
          | .ok docs => .ok (ofBeneath (headOf tag type docs fields) sub)
      | _ => .error (.noType (.obj fields))
  | v => .error (.notObject v.kind)

/-- Reads what the fields of a description say to stand beneath the shape. -/
def beneath : List (String × Json) → Except DescriptionError Beneath
  | [] => .ok .nothing
  | (key, value) :: rest =>
    if key = "sub" then
      let one := ofJson value
      match value with
      | .null => .ok .nothing
      | .arr items =>
        match ofJsonList items with
        | .ok ss => .ok (.many ss)
        | .error e => .error e
      | _ =>
        match one with
        | .ok s => .ok (.one s)
        | .error e => .error e
    else beneath rest

/-- Reads several descriptions, in order, up to the first that cannot be read. -/
def ofJsonList : List Json → Except DescriptionError (List Shape)
  | [] => .ok []
  | v :: rest =>
    match ofJson v with
    | .error e => .error e
    | .ok s =>
      match ofJsonList rest with
      | .ok ss => .ok (s :: ss)
      | .error e => .error e

end

end Shape

end ChainTypings
