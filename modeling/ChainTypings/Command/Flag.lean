import ChainTypings.Text.Digit
import ChainTypings.Text.Piece

/-!
# Flags

The flags of the command line and what a single argument is taken for. A long flag may be cut
short as long as no other one starts the same way, and carries its value after an equals sign or
in the argument that follows. The short flag may be repeated within an argument. An argument that
looks like a negative number or holds a space is no flag.
-/

namespace ChainTypings

/-- A flag of the command line. -/
inductive Flag where
  | help
  | metadata
  | outputDir
  | kind
  | strict
  | extraTypes
  deriving DecidableEq, Repr

namespace Flag

/-- How each flag is written. -/
def spellings : List (String × Flag) :=
  [("-h", .help), ("--help", .help), ("--metadata", .metadata), ("--output-dir", .outputDir),
   ("--kind", .kind), ("--strict", .strict), ("--extra-types", .extraTypes)]

/-- The flag written so. -/
def ofSpelling? (s : String) : Option Flag := spellings.lookup s

/-- All spellings of a flag, as a message names it. -/
def label (f : Flag) : String :=
  String.intercalate "/" ((spellings.filter (·.2 = f)).map (·.1))

/-- Whether the flag has a value. -/
def takesValue : Flag → Bool
  | help | strict => false
  | metadata | outputDir | kind | extraTypes => true

end Flag

/-- What an argument is taken for. -/
inductive Reading where
  | plain
  /-- Two hyphens: nothing after them is a flag. -/
  | separator
  | flag (f : Flag) (value : Option String)
  /-- It looks like a flag and is none. -/
  | unknown
  /-- It is short for several flags. -/
  | ambiguous (spellings : List String)
  deriving DecidableEq, Repr

namespace Reading

/-- Splits an argument at its first equals sign. -/
def splitValue (cs : List Char) : List Char × Option (List Char) :=
  match cs.dropWhile (· ≠ '=') with
  | [] => (cs, none)
  | _ :: value => (cs.takeWhile (· ≠ '='), some value)

/-- The value of an argument as text. -/
def valueText (value : Option (List Char)) : Option String := value.map String.ofList

/-- The long or short flags that the text begins. -/
def candidates (cs : List Char) : List (String × Flag) :=
  Flag.spellings.filter fun s => cs.isPrefixOf s.1.toList

/-- What stands with a short flag and is not the flag again: a value, which it does not take. -/
def surplus? (cs : List Char) : Option (List Char) :=
  match cs.dropWhile (· = 'h') with
  | [] => none
  | rest => some rest

/-- Whether a flag is written with a single hyphen. -/
def isShort : List Char → Bool
  | '-' :: '-' :: _ => false
  | _ => true

/-- A flag written in full, with a value behind the equals sign. To a short flag, what follows is
at first more short flags. -/
def withValue (f : Flag) (name value : List Char) : Reading :=
  if isShort name ∧ value ≠ [] then .flag f (valueText (surplus? value))
  else .flag f (some (String.ofList value))

/-- Whether the text is digits, with a point among them or none, after a hyphen. -/
def isNegativeNumber (cs : List Char) : Bool :=
  let body := if cs.getLast? = some '\n' then cs.dropLast else cs
  match body with
  | '-' :: digits =>
    match digits.dropWhile Text.isDecimalDigit with
    | [] => !digits.isEmpty
    | '.' :: fraction => !fraction.isEmpty && fraction.all Text.isDecimalDigit
    | _ => false
  | _ => false

/-- What an argument that is written like a flag and is none in full is taken for. -/
def ofUnknown (cs : List Char) : Reading :=
  if isNegativeNumber cs || cs.contains ' ' then .plain else .unknown

/-- What an argument that starts with a hyphen is taken for, when it is not a flag in full. -/
def ofShortened (cs : List Char) : Reading :=
  match cs with
  | '-' :: '-' :: _ =>
    let (name, value) := splitValue cs
    match candidates name with
    | [] => ofUnknown cs
    | [(_, f)] => .flag f (valueText value)
    | several => .ambiguous (several.map (·.1))
  | '-' :: 'h' :: tail => .flag .help (valueText (surplus? tail))
  | _ => ofUnknown cs

/-- What an argument is taken for. -/
def ofArgument (arg : String) : Reading :=
  match arg.toList with
  | '-' :: rest =>
    if rest.isEmpty then .plain
    else
      match Flag.ofSpelling? arg with
      | some f => .flag f none
      | none =>
        let (name, value) := splitValue ('-' :: rest)
        match value, Flag.ofSpelling? (String.ofList name) with
        | some value, some f => withValue f name value
        | _, _ => ofShortened ('-' :: rest)
  | _ => .plain

/-- What each of the arguments is taken for; after the separator all are plain. -/
def ofArguments : List String → List (String × Reading)
  | [] => []
  | arg :: rest =>
    if arg = "--" then (arg, .separator) :: rest.map fun a => (a, .plain)
    else (arg, ofArgument arg) :: ofArguments rest

end Reading

end ChainTypings
