import ChainTypings.Json.Dump

/-!
# Values in messages

How a message shows a value: text as quoted text, the absent value and the truth values by name,
lists and objects with their items shown likewise. A text that stands alone may also be shown
bare.
-/

namespace ChainTypings.Json

/-- The text of a floating-point number in a message. -/
def showFloat (x : Binary64) : List Char :=
  x.text numberLayout "nan".toList "inf".toList

mutual

/-- The value as a message shows it. -/
def showChars : Json → List Char
  | .null => "None".toList
  | .bool b => if b then "True".toList else "False".toList
  | .int n => intChars n
  | .float x => showFloat x
  | .str s => Text.quoted s.toList
  | .arr items => '[' :: showItems items ++ [']']
  | .obj fields => '{' :: showFields fields ++ ['}']

/-- The items of a list, with commas between. -/
def showItems : List Json → List Char
  | [] => []
  | [v] => showChars v
  | v :: rest => showChars v ++ ',' :: ' ' :: showItems rest

/-- The fields of an object, with commas between. -/
def showFields : List (String × Json) → List Char
  | [] => []
  | [(k, v)] => Text.quoted k.toList ++ ':' :: ' ' :: showChars v
  | (k, v) :: rest =>
    Text.quoted k.toList ++ ':' :: ' ' :: showChars v ++ ',' :: ' ' :: showFields rest

end

/-- The value as a message shows it. -/
def shown (v : Json) : String := String.ofList (showChars v)

/-- The characters of a value that stands for itself: text is bare. -/
def bareChars : Json → List Char
  | .str s => s.toList
  | v => showChars v

/-- The value, standing for itself: text is bare. -/
def bare (v : Json) : String := String.ofList (bareChars v)

/-- The name of a value's kind. -/
def kind : Json → String
  | .null => "NoneType"
  | .bool _ => "bool"
  | .int _ => "int"
  | .float _ => "float"
  | .str _ => "str"
  | .arr _ => "list"
  | .obj _ => "dict"

end ChainTypings.Json
