/-!
# The summary of a run

What a run says at its end: where its metadata come from, where the documents went, and how many
lines each has. Numbers have a comma before every three digits; names and numbers stand in columns
that give way to what is too wide for them. `length_padStart` and `length_padEnd` say how wide a
column comes out.
-/

namespace ChainTypings.Summary

/-- Digits, the last one first, with a comma before every three. -/
def groupReversed : List Char → List Char
  | a :: b :: c :: d :: rest => a :: b :: c :: ',' :: groupReversed (d :: rest)
  | ds => ds

/-- A number with a comma before every three digits. -/
def grouped (n : Int) : String :=
  let digits := String.ofList (groupReversed (Nat.toDigits 10 n.natAbs).reverse).reverse
  if n < 0 then "-" ++ digits else digits

/-- The text set right in a column. -/
def padStart (width : Nat) (s : String) : String :=
  String.ofList (List.replicate (width - s.length) ' ' ++ s.toList)

/-- The text set left in a column. -/
def padEnd (width : Nat) (s : String) : String :=
  String.ofList (s.toList ++ List.replicate (width - s.length) ' ')

/-- The line of a document. -/
def documentLine (d : String × Int) : String :=
  "    " ++ padEnd 28 d.1 ++ " " ++ padStart 6 (grouped d.2) ++ " lines"

/-- The summary of documents, each with its number of lines. -/
def text (source output : String) (documents : List (String × Int)) : String :=
  let total := (documents.map (·.2)).foldl (· + ·) 0
  String.intercalate "\n" <|
    ["Type declarations generated:", "", "  Source:     " ++ source,
     "  Output:     " ++ output, "", "  Files written:"] ++
    documents.map documentLine ++
    ["", "  Total: " ++ grouped total ++ " lines across " ++ toString documents.length ++ " files",
     ""]

theorem length_padStart (width : Nat) (s : String) :
    (padStart width s).length = max width s.length := by
  simp [padStart]
  omega

theorem length_padEnd (width : Nat) (s : String) :
    (padEnd width s).length = max width s.length := by
  simp [padEnd]
  omega

end ChainTypings.Summary
