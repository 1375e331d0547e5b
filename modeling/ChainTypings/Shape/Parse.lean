import ChainTypings.Shape.Operands

/-!
# The shape of a type text

A type text is brought to its normal spelling, read one construct deep, and its operands are
parsed in order; the first that has no shape decides the error. Every operand is lighter than its
text (`weight_lt_of_mem_operands`), so the recursion ends on every text. `parse_eq` is its
equation.
-/

namespace ChainTypings

open Spelling

namespace Construct

/-- Reads a type text, one construct deep, and gives the construct with its normal spelling. -/
def ofText (text : List Char) : Except ParseError (List Char × Construct) :=
  let value := normalize text
  if value.isEmpty then .error (.empty (String.ofList text))
  else
    match read value with
    | .ok c => .ok (value, c)
    | .error e => .error e

theorem ofText_eq_ok {text value : List Char} {c : Construct}
    (h : ofText text = .ok (value, c)) : value = normalize text ∧ read value = .ok c := by
  unfold ofText at h
  dsimp only at h
  split at h
  · simp at h
  · split at h
    · next hr =>
      obtain ⟨rfl, rfl⟩ := Prod.mk.inj (Except.ok.inj h)
      exact ⟨rfl, hr⟩
    · simp at h

theorem weight_lt_of_ofText {text value t : List Char} {c : Construct}
    (h : ofText text = .ok (value, c)) (ht : t ∈ c.operands) :
    Text.weight t < Text.weight text := by
  obtain ⟨rfl, hr⟩ := ofText_eq_ok h
  exact Nat.lt_of_lt_of_le (weight_lt_of_mem_operands hr ht) (weight_normalize text)

end Construct

namespace Shape

/-- Parses several texts, in order, up to the first that has no shape. -/
def parseEach (parse : List Char → Except ParseError Shape) :
    List (List Char) → Except ParseError (List Shape)
  | [] => .ok []
  | t :: ts =>
    match parse t with
    | .error e => .error e
    | .ok s =>
      match parseEach parse ts with
      | .error e => .error e
      | .ok ss => .ok (s :: ss)

/-- Parses the texts of a list of which each is known to be a member. -/
def parseMembers {ts : List (List Char)}
    (parse : (t : List Char) → t ∈ ts → Except ParseError Shape) :
    (us : List (List Char)) → (∀ t ∈ us, t ∈ ts) → Except ParseError (List Shape)
  | [], _ => .ok []
  | u :: us, h =>
    match parse u (h u (by simp)) with
    | .error e => .error e
    | .ok s =>
      match parseMembers parse us fun t ht => h t (by simp [ht]) with
      | .error e => .error e
      | .ok ss => .ok (s :: ss)

theorem parseMembers_eq {ts : List (List Char)} (parse : List Char → Except ParseError Shape)
    (us : List (List Char)) (h : ∀ t ∈ us, t ∈ ts) :
    parseMembers (fun t _ => parse t) us h = parseEach parse us := by
  induction us with
  | nil => rfl
  | cons u us ih =>
    rw [parseMembers, parseEach, ih]

/-- A reader of one construct whose operands are all lighter than its text. -/
structure Layer where
  ofText : List Char → Except ParseError (List Char × Construct)
  lighter : ∀ {text value t : List Char} {c : Construct},
    ofText text = .ok (value, c) → t ∈ c.operands → Text.weight t < Text.weight text

/-- The shape of a type text that is read layer by layer. -/
def parseBy (layer : Layer) (text : List Char) : Except ParseError Shape :=
  match _read : layer.ofText text with
  | .error e => .error e
  | .ok (value, c) =>
    match parseMembers (fun t (_mem : t ∈ c.operands) => parseBy layer t) c.operands
        fun _ h => h with
    | .error e => .error e
    | .ok shapes => c.assemble (String.ofList value) shapes
termination_by Text.weight text
decreasing_by exact layer.lighter _read _mem

theorem parseBy_eq (layer : Layer) (text : List Char) :
    parseBy layer text =
      match layer.ofText text with
      | .error e => .error e
      | .ok (value, c) =>
        match parseEach (parseBy layer) c.operands with
        | .error e => .error e
        | .ok shapes => c.assemble (String.ofList value) shapes := by
  rw [parseBy]
  split
  · next h => rw [h]
  · next h => rw [h, parseMembers_eq]

/-- The constructs of type texts, each text in its normal spelling. -/
def layer : Layer := ⟨Construct.ofText, Construct.weight_lt_of_ofText⟩

/-- The shape of a type text, however deep its types are nested: a runtime's limit on the depth of
calls is left out. -/
def parse (text : List Char) : Except ParseError Shape := parseBy layer text

/-- Parsing is reading one construct, parsing its operands and assembling their shapes. -/
theorem parse_eq (text : List Char) :
    parse text =
      match Construct.ofText text with
      | .error e => .error e
      | .ok (value, c) =>
        match parseEach parse c.operands with
        | .error e => .error e
        | .ok shapes => c.assemble (String.ofList value) shapes :=
  parseBy_eq layer text

/-- The shape of a type text, as a member of the given name. -/
def parseNamed (name : Json) (text : List Char) : Except ParseError Shape :=
  (parse text).map (named name)

end Shape

end ChainTypings
