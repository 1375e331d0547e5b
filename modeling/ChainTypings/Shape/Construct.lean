import ChainTypings.Bracket
import ChainTypings.Json.Display
import ChainTypings.Json.Key
import ChainTypings.Shape.ParseError
import ChainTypings.Text.Digit
import ChainTypings.Text.Piece

/-!
# The outermost construct of a type text

A type text in its normal spelling is read one construct deep: what it is outermost and which
texts stand directly beneath, still unread. Once those texts have become shapes, `assemble` puts
the shape of the whole together. Reading all depths is then one recursion on `operands`.
-/

namespace ChainTypings

open ChainTypings.Bracket

/-- What a type text is outermost. -/
inductive Construct where
  /-- A pair of parentheses with nothing in it. -/
  | unit
  /-- Any other name, or a generic type without a rule of its own. -/
  | plain
  /-- A type that is never built, whatever its arguments. -/
  | doNotConstruct
  /-- A reference to an entry of the registry. -/
  | indirection (index : Nat)
  /-- A number of a given bit length, `tag` saying whether it is signed. -/
  | number (tag : Tag) (bits : List Char) (label : Option (List Char))
  | tuple (elements : List (List Char))
  | vec (element : List Char)
  | vecFixed (element count : List Char)
  /-- A wrapper around one type. -/
  | wrapper (tag : Tag) (argument : List Char)
  /-- A wrapper around two types. -/
  | pair (tag : Tag) (first second : List Char)
  /-- An inline structure or enumeration: its members with the texts of their types. -/
  | members (tag : Tag) (members : List (Json × List Char))
  /-- An inline enumeration whose variants hold nothing. -/
  | variants (names : List Json)
  /-- An inline set: its flags with their bits, and its bit length. -/
  | flags (flags : List (Json × Json)) (length : Json)

namespace Construct

/-- The texts directly beneath, in order. -/
def operands : Construct → List (List Char)
  | tuple elements => elements
  | vec element => [element]
  | vecFixed element _ => [element]
  | wrapper _ argument => [argument]
  | pair _ first second => [first, second]
  | members _ ms => ms.map (·.2)
  | _ => []

/-! ## Inline definitions -/

/-- The type text of a member: its text, the empty tuple for a missing type, and for an inline
definition its JSON. -/
def memberText : Json → List Char
  | .null => ['(', ')']
  | .str s => s.toList
  | v => v.dumpChars

/-- The members of an inline structure or enumeration. -/
def memberTexts (fields : List (String × Json)) : List (Json × List Char) :=
  fields.map fun (key, v) => (.str key, memberText v)

/-- Sets a flag: in place if one of its name is there, else as the last one. -/
def putFlag (flag : Json) (bit : Json) : List (Json × Json) → List (Json × Json)
  | [] => [(flag, bit)]
  | (f, b) :: rest =>
    match f.key?, flag.key? with
    | some k, some k' =>
      if k.same k' then (f, bit) :: rest else (f, b) :: putFlag flag bit rest
    | _, _ => (f, b) :: putFlag flag bit rest

/-- What a value holds when it is taken for a pair. -/
def pairItems? : Json → Option (List Json)
  | .arr items => some items
  | .str s => some (s.toList.map fun c => .str (String.singleton c))
  | .obj fields => some (fields.map fun (key, _) => .str key)
  | _ => none

/-- Reads flags that are listed as pairs, the first of them at `index`. -/
def flagPairs (index : Nat) (acc : List (Json × Json)) :
    List Json → Except ParseError (List (Json × Json))
  | [] => .ok acc
  | v :: rest =>
    match pairItems? v with
    | none => .error .badFlags
    | some [flag, bit] =>
      match flag.key? with
      | none => .error .badFlags
      | some _ => flagPairs (index + 1) (putFlag flag bit acc) rest
    | some items => .error (.unevenFlag index items.length)

/-- Reads the flags of an inline set: an object, or a list of pairs. A text is the list of its
characters, of which none is a pair. -/
def readFlags : Json → Except ParseError (List (Json × Json))
  | .obj fields => .ok (fields.map fun (key, v) => (.str key, v))
  | .arr items => flagPairs 0 [] items
  | .str s => flagPairs 0 [] (s.toList.map fun c => .str (String.singleton c))
  | _ => .error .badFlags

/-- Whether a flag has the given name. -/
def isNamed (name : String) (flag : Json × Json) : Bool := flag.1.text? = some name

/-- The bit length among the flags, eight where it is not given, and the other flags. -/
def takeLength (flags : List (Json × Json)) : Json × List (Json × Json) :=
  let length := (flags.find? (isNamed "_bitLength")).map (·.2)
  (length.getD (.int 8), flags.filter (!isNamed "_bitLength" ·))

/-- Reads the fields of an inline definition. The field `_enum` makes it an enumeration, else the
field `_set` a set; without either it is a structure. -/
def ofFields (value : String) (fields : List (String × Json)) : Except ParseError Construct :=
  match fields.lookup "_enum" with
  | some (.arr names) => .ok (variants names)
  | some (.obj ms) => .ok (members .enum (memberTexts ms))
  | some _ => .error (.badVariants value)
  | none =>
    match fields.lookup "_set" with
    | some v =>
      match readFlags v with
      | .ok fs =>
        let (length, fs) := takeLength fs
        .ok (flags fs length)
      | .error e => .error e
    | none => .ok (members .struct (memberTexts fields))

/-- Reads an inline definition. -/
def ofInline (cs : List Char) : Except ParseError Construct :=
  let value := String.ofList cs
  match Json.readChars cs with
  | .error cause => .error (.malformedInline value cause)
  | .ok (.obj fields) => ofFields value fields
  | .ok _ => .error (.inlineNotObject value)

/-! ## Bracketed and generic types -/

/-- The inside of a text that one pair of brackets encloses, the first being the given one. -/
def inside? (opener : Char) (cs : List Char) : Option (List Char) :=
  match cs with
  | c :: rest =>
    if c = opener then
      match enclosed 0 rest with
      | some (inside, []) => some inside
      | _ => none
    else none
  | [] => none

/-- Reads what stands between square brackets: an element and a count, or an element. -/
def ofSquare (value inside : List Char) : Except ParseError Construct :=
  match splitTopLevel [';'] inside with
  | [element, count] =>
    if Text.allDigits count then .ok (vecFixed element count)
    else .error (.badFixedLength (String.ofList value))
  | _ => .ok (vec inside)

/-- The text without the line break at its end, if it has one. -/
def chomp (cs : List Char) : List Char := if cs.getLast? = some '\n' then cs.dropLast else cs

/-- The number of a reference to the registry. A line break after the number is passed over. -/
def lookupNumber? (cs : List Char) : Option Nat :=
  match Text.after? ['L', 'o', 'o', 'k', 'u', 'p'] cs with
  | some tail =>
    let digits := chomp tail
    if digits.isEmpty then none else Text.decimalNumber? digits
  | none => none

/-- The generic types with a rule, and how each name is tagged. -/
def generics : List (String × Tag) :=
  [("BTreeMap", .bTreeMap), ("BTreeSet", .bTreeSet), ("Compact", .compact),
   ("DoNotConstruct", .doNotConstruct), ("HashMap", .hashMap), ("Int", .int),
   ("Linkage", .linkage), ("Option", .option), ("Range", .range), ("RangeInclusive", .range),
   ("Result", .result), ("UInt", .uInt), ("Vec", .vec), ("WrapperOpaque", .wrapperOpaque)]

/-- How many types a wrapper is around. -/
def arity : Tag → Nat
  | .bTreeMap => 2
  | .hashMap => 2
  | .result => 2
  | _ => 1

/-- Reads the arguments of a generic type. -/
def ofArguments (value : List Char) (tag : Tag) (arguments : List (List Char)) :
    Except ParseError Construct :=
  let text := String.ofList value
  match tag with
  | .int | .uInt =>
    match arguments with
    | bits :: rest =>
      if Text.allDigits bits then .ok (number tag bits rest.head?)
      else .error (.badBitLength text)
    | [] => .error (.badBitLength text)
  | .doNotConstruct => .ok doNotConstruct
  | _ =>
    match arity tag, arguments with
    | 1, [argument] => .ok (wrapper tag argument)
    | 2, [first, second] => .ok (pair tag first second)
    | n, arguments => .error (.wrongArity tag n arguments.length text)

/-- Reads a generic type or a plain name: a text that ends in a closing bracket and has the name
of a generic type in front of the first opening one. -/
def ofName (value : List Char) : Except ParseError Construct :=
  if value.getLast? = some '>' then
    let name := value.takeWhile (· ≠ '<')
    let arguments := (value.dropWhile (· ≠ '<')).drop 1
    match generics.lookup (String.ofList name) with
    | some tag => ofArguments value tag (splitTopLevel [','] arguments.dropLast)
    | none => .ok plain
  else .ok plain

/-- Reads a type text in its normal spelling, one construct deep. -/
def read (value : List Char) : Except ParseError Construct :=
  if !isBalanced value then .error (.unbalanced (String.ofList value))
  else if value = ['(', ')'] then .ok unit
  else if value.head? = some '{' then ofInline value
  else
    match inside? '(' value with
    | some inside => .ok (tuple (splitTopLevel [','] inside))
    | none =>
      match inside? '[' value with
      | some inside => ofSquare value inside
      | none =>
        match lookupNumber? value with
        | some index => .ok (indirection index)
        | none => ofName value

/-! ## Assembly -/

/-- The number that digits spell, whatever the count of them: as in `Text.decimalNumber?`, a limit
such as 4300 digits is left out. -/
def count (digits : List Char) : Except ParseError Json :=
  match Text.decimalNumber? digits with
  | some n => .ok (.int n)
  | none => .error (.notNumber (String.ofList digits))

/-- A shape around one other. Any other count of shapes makes a group. -/
def around (h : Head) : List Shape → Shape
  | [s] => .single h s
  | ss => .group h ss

/-- A variant that holds nothing. -/
def emptyVariant (name : Json) : Shape := .leaf { tag := .null, type := "Null", name }

/-- A flag of a set; its bit stands for its type. -/
def flagShape (flag : Json × Json) : Shape :=
  .leaf { tag := .plain, type := flag.2.bare, name := flag.1 }

/-- The shape of a construct whose text is `type` and whose operands have the given shapes. The
count of a fixed vector is read last, after its element. -/
def assemble (type : String) (operands : List Shape) : Construct → Except ParseError Shape
  | unit => .ok (.leaf { tag := .null, type := "Null" })
  | plain => .ok (.leaf { tag := .plain, type })
  | doNotConstruct => .ok (.leaf { tag := .doNotConstruct, type })
  | indirection index => .ok (.leaf { tag := .si, type, lookupIndex := .int index })
  | number tag bits label => do
    let length ← count bits
    let typeName := (label.map fun l => Json.str (String.ofList l)).getD .null
    .ok (.leaf { tag, type, typeName, length })
  | tuple _ => .ok (.group { tag := .tuple, type } operands)
  | vec _ => .ok (around { tag := .vec, type } operands)
  | vecFixed _ digits => do
    let length ← count digits
    .ok (around { tag := .vecFixed, type, length } operands)
  | wrapper tag _ => .ok (around { tag, type } operands)
  | pair tag _ _ => .ok (.group { tag, type } operands)
  | members tag ms =>
    .ok (.group { tag, type } (List.zipWith (fun (name, _) s => s.named name) ms operands))
  | variants names => .ok (.group { tag := .enum, type } (names.map emptyVariant))
  | flags fs length => .ok (.group { tag := .set, type, length } (fs.map flagShape))

end Construct

end ChainTypings
