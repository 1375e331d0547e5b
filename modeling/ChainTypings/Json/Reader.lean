import ChainTypings.Json.Basic
import ChainTypings.Text.Piece

/-!
# Reading JSON

A reader over the remaining characters. Each step gives a value and what is left, or the fault
that it met and how many characters were left there, from which line, column and offset follow.
Beyond the standard it reads the names of the three floating-point values that have no digits.

A value holds at least one character, so twice the text's length bounds the nesting of calls;
`read` starts with that bound. A runtime's own limit on the depth of calls is left out.
-/

namespace ChainTypings.Json

/-- What can be wrong with a JSON text. -/
inductive Fault where
  | byteOrderMark
  | extraData
  | controlCharacter
  | badEscape
  | badUnicodeEscape
  | unterminatedString
  | expectedName
  | expectedColon
  | expectedComma
  | expectedValue
  deriving DecidableEq, Repr

/-- The wording of a fault. -/
def Fault.message : Fault → String
  | .byteOrderMark => "Unexpected UTF-8 BOM (decode using utf-8-sig)"
  | .extraData => "Extra data"
  | .controlCharacter => "Invalid control character at"
  | .badEscape => "Invalid \\escape"
  | .badUnicodeEscape => "Invalid \\uXXXX escape"
  | .unterminatedString => "Unterminated string starting at"
  | .expectedName => "Expecting property name enclosed in double quotes"
  | .expectedColon => "Expecting ':' delimiter"
  | .expectedComma => "Expecting ',' delimiter"
  | .expectedValue => "Expecting value"

/-- A fault with its place: line and column count from one, the offset from zero. -/
structure SyntaxError where
  fault : Fault
  line : Nat
  column : Nat
  offset : Nat
  deriving DecidableEq, Repr

/-- The message of a syntax error. -/
def SyntaxError.message (e : SyntaxError) : String :=
  e.fault.message ++ ": line " ++ toString e.line ++ " column " ++ toString e.column ++
    " (char " ++ toString e.offset ++ ")"

/-- The place of a fault at an offset of a text. -/
def SyntaxError.at (text : List Char) (fault : Fault) (offset : Nat) : SyntaxError :=
  let before := text.take offset
  { fault
    line := before.count '\n' + 1
    column := (before.reverse.takeWhile (· ≠ '\n')).length + 1
    offset }

/-- A fault and the count of characters that were left where it lies. -/
structure Stop where
  fault : Fault
  left : Nat

/-- A step of the reader: a result and the characters left, or a stop. -/
abbrev Step (α : Type) := Except Stop (α × List Char)

/-- Stops in front of the given characters. -/
def stop {α : Type} (fault : Fault) (rest : List Char) : Except Stop α :=
  .error ⟨fault, rest.length⟩

/-! ## Blanks, words and numbers -/

/-- The blanks that may stand between the parts of a value. -/
def isGap (c : Char) : Bool := c = ' ' || c = '\t' || c = '\n' || c = '\r'

/-- Passes over blanks. -/
def skip (cs : List Char) : List Char := cs.dropWhile isGap

/-- The values that are written as one word. -/
def words : List (List Char × Json) :=
  [(['n', 'u', 'l', 'l'], .null), (['t', 'r', 'u', 'e'], .bool true),
   (['f', 'a', 'l', 's', 'e'], .bool false), (['N', 'a', 'N'], .float .nan),
   (['I', 'n', 'f', 'i', 'n', 'i', 't', 'y'], .float (.infinite false)),
   (['-', 'I', 'n', 'f', 'i', 'n', 'i', 't', 'y'], .float (.infinite true))]

/-- Reads one of the words. -/
def word? (cs : List Char) : Option (Json × List Char) :=
  words.findSome? fun (w, v) => (Text.after? w cs).map fun rest => (v, rest)

/-- The value of a run of ASCII digits, of any count; a limit such as 4300 digits is left out. -/
def digitsValue (ds : List Char) : Nat := ds.foldl (fun n c => 10 * n + (c.toNat - 48)) 0

/-- The digits at the start of a text and what follows them. -/
def digits (cs : List Char) : List Char × List Char :=
  (cs.takeWhile Char.isDigit, cs.dropWhile Char.isDigit)

/-- Reads the digits of a whole number: a zero alone or digits that start with no zero. -/
def whole? (cs : List Char) : Option (List Char × List Char) :=
  match cs with
  | '0' :: rest => some (['0'], rest)
  | _ =>
    let (ds, rest) := digits cs
    if ds.isEmpty then none else some (ds, rest)

/-- Reads a point and the digits after it; none where no digit follows the point. -/
def fraction (cs : List Char) : List Char × List Char :=
  match cs with
  | '.' :: more =>
    let (ds, rest) := digits more
    if ds.isEmpty then ([], cs) else (ds, rest)
  | _ => ([], cs)

/-- Passes over a sign and tells whether it is a minus. -/
def sign (cs : List Char) : Bool × List Char :=
  match cs with
  | '-' :: rest => (true, rest)
  | '+' :: rest => (false, rest)
  | _ => (false, cs)

/-- Reads an exponent: its mark, a sign or none, and digits. -/
def exponent? (cs : List Char) : Option (Int × List Char) :=
  match cs with
  | e :: more =>
    if e = 'e' || e = 'E' then
      let (negative, more) := sign more
      let (ds, rest) := digits more
      if ds.isEmpty then none
      else
        let size : Int := digitsValue ds
        some (if negative then -size else size, rest)
    else none
  | [] => none

/-- Passes over a minus and tells whether there is one. -/
def minus (cs : List Char) : Bool × List Char :=
  match cs with
  | '-' :: rest => (true, rest)
  | _ => (false, cs)

/-- Reads a number; one with a point or an exponent is a floating-point number. -/
def number? (cs : List Char) : Option (Json × List Char) :=
  let (negative, body) := minus cs
  match whole? body with
  | none => none
  | some (ds, rest) =>
    let (fs, rest) := fraction rest
    match fs, exponent? rest with
    | [], none =>
      let size : Int := digitsValue ds
      some (.int (if negative then -size else size), rest)
    | _, exponent =>
      let (power, rest) := exponent.getD (0, rest)
      some (.float (.ofDecimal negative (digitsValue (ds ++ fs)) (power - fs.length)), rest)

/-! ## Strings -/

/-- The value of a hexadecimal digit. -/
def hexValue? (c : Char) : Option Nat :=
  if '0' ≤ c ∧ c ≤ '9' then some (c.toNat - 48)
  else if 'a' ≤ c ∧ c ≤ 'f' then some (c.toNat - 87)
  else if 'A' ≤ c ∧ c ≤ 'F' then some (c.toNat - 55)
  else none

/-- The code unit of four hexadecimal digits. -/
def unit? (a b c d : Char) : Option Nat := do
  some (4096 * (← hexValue? a) + 256 * (← hexValue? b) + 16 * (← hexValue? c) + (← hexValue? d))

/-- The character of an escape of one letter. -/
def escaped? (c : Char) : Option Char :=
  match c with
  | '"' => some '"'
  | '\\' => some '\\'
  | '/' => some '/'
  | 'b' => some '\x08'
  | 'f' => some '\x0c'
  | 'n' => some '\n'
  | 'r' => some '\r'
  | 't' => some '\t'
  | _ => none

/-- Joins code units to characters: a high surrogate and the low one after it are one character.
A surrogate that stands alone is no character and gives the replacement character. Texts that keep
such a surrogate, as those of some runtimes do, are left out. -/
def joinUnits : List Nat → List Char
  | [] => []
  | [u] => [if u < 0xd800 ∨ 0xdfff < u then Char.ofNat u else '\ufffd']
  | u :: v :: rest =>
    if 0xd800 ≤ u ∧ u ≤ 0xdbff ∧ 0xdc00 ≤ v ∧ v ≤ 0xdfff then
      Char.ofNat (0x10000 + 1024 * (u - 0xd800) + (v - 0xdc00)) :: joinUnits rest
    else
      (if u < 0xd800 ∨ 0xdfff < u then Char.ofNat u else '\ufffd') :: joinUnits (v :: rest)

/-- Adds a code unit in front of what a step read. -/
def consUnit (u : Nat) : Step (List Nat) → Step (List Nat)
  | .ok (us, rest) => .ok (u :: us, rest)
  | .error e => .error e

/-- Reads the code units of a string up to its closing quote. A string without end is reported at
its opening quote, which stood in front of `inside`. -/
def units (inside : List Char) : List Char → Step (List Nat)
  | [] => .error ⟨.unterminatedString, inside.length + 1⟩
  | '"' :: rest => .ok ([], rest)
  | ['\\'] => .error ⟨.unterminatedString, inside.length + 1⟩
  | '\\' :: 'u' :: a :: b :: c :: d :: e :: rest =>
    match unit? a b c d with
    | some u => consUnit u (units inside (e :: rest))
    | none => .error ⟨.badUnicodeEscape, rest.length + 6⟩
  | '\\' :: 'u' :: rest => .error ⟨.badUnicodeEscape, rest.length + 1⟩
  | '\\' :: c :: rest =>
    match escaped? c with
    | some x => consUnit x.toNat (units inside rest)
    | none => .error ⟨.badEscape, rest.length + 2⟩
  | c :: rest =>
    if c.toNat < 32 then .error ⟨.controlCharacter, rest.length + 1⟩
    else consUnit c.toNat (units inside rest)

/-- Reads a string whose opening quote is already read. -/
def string (cs : List Char) : Step String :=
  match units cs cs with
  | .ok (us, rest) => .ok (String.ofList (joinUnits us), rest)
  | .error e => .error e

/-! ## Values -/

mutual

/-- Reads a value. -/
def value : Nat → List Char → Step Json
  | 0, cs => stop .expectedValue cs
  | fuel + 1, cs =>
    match cs with
    | '"' :: rest =>
      match string rest with
      | .ok (s, rest) => .ok (.str s, rest)
      | .error e => .error e
    | '{' :: rest =>
      match skip rest with
      | '}' :: rest => .ok (.obj [], rest)
      | rest =>
        match members fuel rest with
        | .ok (fields, rest) => .ok (ofFields fields, rest)
        | .error e => .error e
    | '[' :: rest =>
      match skip rest with
      | ']' :: rest => .ok (.arr [], rest)
      | rest =>
        match items fuel rest with
        | .ok (vs, rest) => .ok (.arr vs, rest)
        | .error e => .error e
    | _ =>
      match word? cs with
      | some found => .ok found
      | none =>
        match number? cs with
        | some found => .ok found
        | none => stop .expectedValue cs

/-- Reads the items of a list up to its closing bracket; there is at least one. -/
def items : Nat → List Char → Step (List Json)
  | 0, cs => stop .expectedValue cs
  | fuel + 1, cs =>
    match value fuel cs with
    | .error e => .error e
    | .ok (v, rest) =>
      match skip rest with
      | ']' :: rest => .ok ([v], rest)
      | ',' :: rest =>
        match items fuel (skip rest) with
        | .ok (vs, rest) => .ok (v :: vs, rest)
        | .error e => .error e
      | rest => stop .expectedComma rest

/-- Reads the fields of an object up to its closing brace; there is at least one. -/
def members : Nat → List Char → Step (List (String × Json))
  | 0, cs => stop .expectedName cs
  | fuel + 1, cs =>
    match cs with
    | '"' :: rest =>
      match string rest with
      | .error e => .error e
      | .ok (key, rest) =>
        match skip rest with
        | ':' :: rest =>
          match value fuel (skip rest) with
          | .error e => .error e
          | .ok (v, rest) =>
            match skip rest with
            | '}' :: rest => .ok ([(key, v)], rest)
            | ',' :: rest =>
              match members fuel (skip rest) with
              | .ok (fields, rest) => .ok ((key, v) :: fields, rest)
              | .error e => .error e
            | rest => stop .expectedComma rest
        | rest => stop .expectedColon rest
    | _ => stop .expectedName cs

end

/-- Reads a text that holds one value and nothing but blanks around it. -/
def readChars (text : List Char) : Except SyntaxError Json :=
  let fault (s : Stop) : SyntaxError := .at text s.fault (text.length - s.left)
  match text with
  | '\ufeff' :: _ => .error (.at text .byteOrderMark 0)
  | _ =>
    match value (2 * text.length + 2) (skip text) with
    | .error s => .error (fault s)
    | .ok (v, rest) =>
      match skip rest with
      | [] => .ok v
      | rest => .error (fault ⟨.extraData, rest.length⟩)

/-- Reads a text that holds one value and nothing but blanks around it. -/
def read (text : String) : Except SyntaxError Json := readChars text.toList

end ChainTypings.Json
