/-!
# Brackets

The four kinds of bracket of a type text. Balance is judged with a stack, kind by kind; the end of
a bracketed piece and the top-level parts of a text are found by counting depth alone, whatever
the kinds. `enclosed_eq` says where the counting matcher stops: the text is the piece, a closing
bracket and the remainder.
-/

namespace ChainTypings.Bracket

/-- The bracket that closes an opening one. -/
def closerOf? (c : Char) : Option Char :=
  match c with
  | '<' => some '>'
  | '(' => some ')'
  | '[' => some ']'
  | '{' => some '}'
  | _ => none

/-- Whether the character opens a bracket. -/
def isOpener (c : Char) : Bool := (closerOf? c).isSome

/-- Whether the character closes a bracket. -/
def isCloser (c : Char) : Bool := c = '>' || c = ')' || c = ']' || c = '}'

/-! ## Balance -/

/-- Whether the text closes exactly the pending brackets, given by their closers with the innermost
first, and those that it opens itself. -/
def closes : List Char → List Char → Bool
  | pending, [] => pending.isEmpty
  | pending, c :: cs =>
    match closerOf? c with
    | some k => closes (k :: pending) cs
    | none =>
      if isCloser c then
        match pending with
        | [] => false
        | k :: pending => k = c && closes pending cs
      else closes pending cs

/-- Whether every bracket is closed by one of its kind, in proper nesting. -/
def isBalanced (cs : List Char) : Bool := closes [] cs

/-! ## The end of a bracketed piece -/

/-- Puts a character in front of the first of two texts. -/
def consFst (c : Char) : List Char × List Char → List Char × List Char
  | (inside, after) => (c :: inside, after)

/-- Splits what follows an opening bracket at the bracket that closes it, when `depth` further
brackets are open. The closing bracket is in neither part. -/
def enclosed : Nat → List Char → Option (List Char × List Char)
  | _, [] => none
  | depth, c :: cs =>
    if isOpener c then (enclosed (depth + 1) cs).map (consFst c)
    else if isCloser c then
      match depth with
      | 0 => some ([], cs)
      | depth + 1 => (enclosed depth cs).map (consFst c)
    else (enclosed depth cs).map (consFst c)

/-- The index of the bracket that closes the opening one at index `i`. -/
def closingIndex? (cs : List Char) (i : Nat) : Option Nat :=
  (enclosed 0 (cs.drop (i + 1))).map fun (inside, _) => i + 1 + inside.length

theorem enclosed_eq {depth : Nat} {cs inside after : List Char}
    (h : enclosed depth cs = some (inside, after)) : ∃ c, cs = inside ++ c :: after := by
  induction cs generalizing depth inside after with
  | nil => simp [enclosed] at h
  | cons c cs ih =>
    have step : ∀ {d}, (enclosed d cs).map (consFst c) = some (inside, after) →
        ∃ k, c :: cs = inside ++ k :: after := by
      intro d hd
      obtain ⟨⟨i, a⟩, hi, he⟩ := Option.map_eq_some_iff.1 hd
      obtain ⟨rfl, rfl⟩ := Prod.mk.inj he
      obtain ⟨k, rfl⟩ := ih hi
      exact ⟨k, rfl⟩
    unfold enclosed at h
    split at h
    · exact step h
    · split at h
      · split at h
        · obtain ⟨rfl, rfl⟩ := Prod.mk.inj (Option.some.inj h)
          exact ⟨c, rfl⟩
        · exact step h
      · exact step h

/-! ## Top-level parts -/

/-- Puts a character in front of the first of several texts. -/
def consHead (c : Char) : List (List Char) → List (List Char)
  | [] => [[c]]
  | p :: ps => (c :: p) :: ps

/-- The parts between the separators that stand at depth zero, empty ones included. The depth goes
below zero where brackets close that were never opened. -/
def segments (separator : List Char) : Int → List Char → List (List Char)
  | _, [] => [[]]
  | depth, c :: cs =>
    if isOpener c then consHead c (segments separator (depth + 1) cs)
    else if isCloser c then consHead c (segments separator (depth - 1) cs)
    else if separator = [c] ∧ depth = 0 then [] :: segments separator depth cs
    else consHead c (segments separator depth cs)

/-- The parts of a text between separators outside all brackets, less the empty ones. A separator
is one character; any other text separates nothing. -/
def splitTopLevel (separator cs : List Char) : List (List Char) :=
  (segments separator 0 cs).filter (!·.isEmpty)

end ChainTypings.Bracket
