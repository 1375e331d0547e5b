import ChainTypings.Json.Basic

/-!
# Shapes

A shape is one node of the description of a type: a head, which says what the node is and how it
is called, and beneath it nothing, a single shape or a group of shapes. The annotations of a head
are carried as the values that the description gave, unchecked; the views below read them as what
rendering needs, and an annotation that holds nothing reads as absent.
-/

namespace ChainTypings

/-- What kind of type a shape describes. -/
inductive Tag where
  | bTreeMap | bTreeSet | compact | doNotConstruct | enum | hashMap | int | linkage | null | option
  | plain | range | result | set | si | struct | tuple | uInt | vec | vecFixed | wrapperOpaque
  deriving DecidableEq, Repr, Inhabited

namespace Tag

/-- All tags. -/
def all : List Tag :=
  [.bTreeMap, .bTreeSet, .compact, .doNotConstruct, .enum, .hashMap, .int, .linkage, .null,
   .option, .plain, .range, .result, .set, .si, .struct, .tuple, .uInt, .vec, .vecFixed,
   .wrapperOpaque]

/-- The name of a tag. -/
def name : Tag → String
  | bTreeMap => "BTreeMap"
  | bTreeSet => "BTreeSet"
  | compact => "Compact"
  | doNotConstruct => "DoNotConstruct"
  | enum => "Enum"
  | hashMap => "HashMap"
  | int => "Int"
  | linkage => "Linkage"
  | null => "Null"
  | option => "Option"
  | plain => "Plain"
  | range => "Range"
  | result => "Result"
  | set => "Set"
  | si => "Si"
  | struct => "Struct"
  | tuple => "Tuple"
  | uInt => "UInt"
  | vec => "Vec"
  | vecFixed => "VecFixed"
  | wrapperOpaque => "WrapperOpaque"

/-- The tag of a name. -/
def ofName? (s : String) : Option Tag := all.find? (·.name = s)

theorem mem_all (t : Tag) : t ∈ all := by cases t <;> decide

theorem ofName?_name (t : Tag) : ofName? t.name = some t := by cases t <;> decide

end Tag

/-- What a shape is and how it is called. -/
structure Head where
  tag : Tag
  /-- The type as registries spell it. -/
  type : String
  /-- The name under which the type is declared; a shape that has one is referred to by it. -/
  lookupName : Json := .null
  /-- The place in the registry: of an entry its own, of an indirection that of its target. -/
  lookupIndex : Json := .null
  /-- The name of a field or variant. -/
  name : Json := .null
  /-- A name for readers that rendering keeps. -/
  typeName : Json := .null
  /-- The count of elements of a fixed vector, or the bit length of a number or a set. -/
  length : Json := .null
  docs : List Json := []
  deriving Inhabited

/-- A node of a type description. -/
inductive Shape where
  | leaf (head : Head)
  | single (head : Head) (child : Shape)
  | group (head : Head) (children : List Shape)
  deriving Inhabited

/-- The text of an annotation, if it is one and not empty. An annotation is meant to be a text or
missing; one of another kind reads as missing here, also if it holds something. -/
def Json.label? (v : Json) : Option String :=
  match v with
  | .str s => if s.isEmpty then none else some s
  | _ => none

namespace Head

/-- The name under which the type is declared. -/
def alias? (h : Head) : Option String := h.lookupName.label?

/-- How the type is referred to: its declared name, else its spelling. -/
def reference (h : Head) : String := h.alias?.getD h.type

/-- The name for readers. -/
def hint? (h : Head) : Option String := h.typeName.label?

/-- The name of a field or variant. -/
def label? (h : Head) : Option String := h.name.label?

end Head

namespace Shape

/-- The head of a shape. -/
def head : Shape → Head
  | leaf h => h
  | single h _ => h
  | group h _ => h

/-- The shapes directly beneath. -/
def children : Shape → List Shape
  | leaf _ => []
  | single _ c => [c]
  | group _ cs => cs

/-- The shape with its head changed. -/
def mapHead (f : Head → Head) : Shape → Shape
  | leaf h => leaf (f h)
  | single h c => single (f h) c
  | group h cs => group (f h) cs

/-- The shape as a member of the given name. -/
def named (name : Json) (s : Shape) : Shape := s.mapHead fun h => { h with name }

/-- The shape without the name under which it is declared. -/
def anonymous (s : Shape) : Shape := s.mapHead fun h => { h with lookupName := .null }

@[simp] theorem head_mapHead (f : Head → Head) (s : Shape) : (s.mapHead f).head = f s.head := by
  cases s <;> rfl

@[simp] theorem children_mapHead (f : Head → Head) (s : Shape) :
    (s.mapHead f).children = s.children := by
  cases s <;> rfl

end Shape

end ChainTypings
