import ChainTypings.Proofs.Shape.Heads
import ChainTypings.Session.Render

/-!
# Writing in one pass

`render` gives an expression, and what is printed in the end is that expression in a layout. A type
can as well be written in one pass: the layout is handed down from rule to rule, and each rule puts
the texts of its parts together at once. That the two agree (`write_eq`) says that no rule asks for
the layout, save to set out the fields of a structure that has no name.
-/

namespace ChainTypings.Recording

/-! ## The rules that write -/

/-- A shape beneath another, ready to be written under a hint. -/
structure Piece where
  head : Head
  write : Option String → Recording String

/-- What stands beneath a shape, ready to be written. -/
inductive Pieces where
  | none
  | one (p : Piece)
  | many (ps : List Piece)

/-- The declared names of pieces. -/
def declaredNames (ps : List Piece) : List (Option String) := ps.map fun p => p.head.alias?

/-- The text of a type under the label of a name for readers, if it is given one. -/
def writeNamed (type : String) (typeName : Option String) : Recording String :=
  match typeName.bind (Label.labelFor? type) with
  | some label => do
    record "As"
    return "As<'" ++ label ++ "', " ++ type ++ ">"
  | none => return type

/-- The declared name of a piece, else its text under a hint. -/
def writeArgument (p : Piece) (hint : Option String) : Recording String :=
  match p.head.alias? with
  | some name => return name
  | none => p.write hint

/-- The text of a wrapper around the one piece beneath. -/
def writeWrap (shape : Shape) (pieces : Pieces) (wrapper : String) (hint : Option String) :
    Recording String :=
  match pieces with
  | .one p => do
    recordEach (some wrapper :: declaredNames [p])
    return Expr.application wrapper [← writeArgument p hint]
  | _ => throw (.unsupported shape .expectedOne)

/-- The pieces of a list; a shape with nothing beneath has none. -/
def listedPieces (shape : Shape) : Pieces → Recording (List Piece)
  | .none => return []
  | .many ps => return ps
  | .one _ => throw (.unsupported shape .expectedList)

/-- The text of a wrapper around two pieces. -/
def writeWrapTwo (shape : Shape) (pieces : Pieces) (wrapper : String) : Recording String := do
  match ← listedPieces shape pieces with
  | [a, b] => do
    recordEach (some wrapper :: declaredNames [a, b])
    let first ← writeArgument a none
    let second ← writeArgument b none
    return Expr.application wrapper [first, second]
  | _ => throw (.unsupported shape .expectedTwo)

/-- The text of a field's type or of an element. -/
def writeMember (p : Piece) : Recording String :=
  match p.head.alias? with
  | some name => do
    record name
    writeNamed name p.head.hint?
  | none => p.write p.head.hint?

/-- The texts of the fields of a structure, the first of them at place `index`. -/
def writeFields (layout : Layout) : Nat → List Piece → Recording (List String)
  | _, [] => return []
  | index, p :: ps => do
    let type ← writeMember p
    let rest ← writeFields layout (index + 1) ps
    return layout.field (p.head.label?.getD (Scope.placeKey index)) type :: rest

/-- A name under which a shape is declared, else what its rule writes. -/
def writeAliasOr (h : Head) (rule : Recording String) : Recording String :=
  match h.alias? with
  | some name => return name
  | none => rule

/-- The rule of a shape's tag. `follow` writes the entry that an indirection leads to. -/
def writeRule (r : Registry) (layout : Layout) (follow : Shape → Recording String) (shape : Shape)
    (pieces : Pieces) (hint : Option String) : Recording String :=
  let h := shape.head
  match h.tag with
  | .compact => writeWrap shape pieces "Compact" hint
  | .option => writeWrap shape pieces "Option" (Label.optionHint hint)
  | .vec => writeWrap shape pieces "Vec" none
  | .vecFixed =>
    match pieces with
    | .one p =>
      if p.head.type = "u8" then do
        record "U8aFixed"
        return "U8aFixed"
      else writeWrap shape pieces "Vec" none
    | _ => throw (.unsupported shape .expectedOne)
  | .bTreeSet => writeWrap shape pieces "BTreeSet" none
  | .linkage => writeWrap shape pieces "Linkage" none
  | .wrapperOpaque => writeWrap shape pieces "WrapperOpaque" none
  | .bTreeMap => writeWrapTwo shape pieces "BTreeMap"
  | .hashMap => writeWrapTwo shape pieces "HashMap"
  | .result => writeWrapTwo shape pieces "Result"
  | .doNotConstruct => do
    record "DoNotConstruct"
    return "DoNotConstruct"
  | .null => do
    record "Null"
    return "Null"
  | .enum => writeAliasOr h (throw (.unsupported shape .noRule))
  | .plain =>
    writeAliasOr h do
      record h.type
      writeNamed h.type hint
  | .struct =>
    writeAliasOr h do
      let ps ← listedPieces shape pieces
      recordEach (some "Struct" :: declaredNames ps)
      return layout.struct (← writeFields layout 0 ps)
  | .tuple =>
    writeAliasOr h do
      let ps ← listedPieces shape pieces
      recordEach (some "ITuple" :: declaredNames ps)
      let elements ← ps.mapM writeMember
      return Expr.application "ITuple" ["[" ++ String.intercalate ", " elements ++ "]"]
  | .si => do follow (← MonadExcept.ofExcept (target r h))
  | .int | .uInt | .range | .set => throw (.unsupported shape .noRule)

mutual

/-- Writes a shape under a hint: records how it is referred to and applies the rule of its tag. -/
def writeShape (r : Registry) (layout : Layout) (follow : Shape → Recording String) :
    Shape → Option String → Recording String
  | .leaf h, hint => do
    record h.reference
    writeRule r layout follow (.leaf h) .none hint
  | .single h c, hint => do
    record h.reference
    writeRule r layout follow (.single h c) (.one ⟨c.head, writeShape r layout follow c⟩) hint
  | .group h cs, hint => do
    record h.reference
    writeRule r layout follow (.group h cs) (.many (writePieces r layout follow cs)) hint

/-- The shapes of a group as pieces. -/
def writePieces (r : Registry) (layout : Layout) (follow : Shape → Recording String) :
    List Shape → List Piece
  | [] => []
  | c :: cs => ⟨c.head, writeShape r layout follow c⟩ :: writePieces r layout follow cs

end

/-- Writes a shape when at most `hops` indirections may be followed one inside the other. -/
def writeWithin (r : Registry) (layout : Layout) : Nat → Shape → Option String → Recording String
  | 0 => writeShape r layout fun _ => throw .endless
  | hops + 1 => writeShape r layout fun entry => writeWithin r layout hops entry none

/-- Writes a shape under a hint. -/
def write (r : Registry) (layout : Layout) (shape : Shape) (hint : Option String) :
    Recording String :=
  writeWithin r layout r.entries.length shape hint

/-! ## Parts that are printed -/

variable {α : Type} {r : Registry} {layout : Layout}

/-- A part as the piece that its expression prints as. -/
def Part.printed (layout : Layout) (p : Part) : Piece :=
  ⟨p.head, fun hint => Expr.print layout <$> p.render hint⟩

/-- Parts as the pieces that their expressions print as. -/
def Parts.printed (layout : Layout) : Parts → Pieces
  | .none => .none
  | .one p => .one (p.printed layout)
  | .many ps => .many (ps.map (Part.printed layout))

theorem declaredNames_printed (ps : List Part) :
    declaredNames (ps.map (Part.printed layout)) = aliases ps := by
  rw [declaredNames, aliases, List.map_map]
  rfl

theorem writeNamed_eq (type : String) (typeName : Option String) :
    writeNamed type typeName = Expr.print layout <$> named type typeName := by
  unfold writeNamed named
  cases typeName.bind (Label.labelFor? type) with
  | none => rfl
  | some label => rw [map_bind]; rfl

theorem writeArgument_printed (p : Part) (hint : Option String) :
    writeArgument (p.printed layout) hint = Expr.print layout <$> argument p hint := by
  unfold writeArgument argument
  show (match p.head.alias? with | some name => _ | none => _) = _
  cases p.head.alias? with
  | none => rfl
  | some name => rfl

theorem writeWrap_printed (shape : Shape) (parts : Parts) (wrapper : String)
    (hint : Option String) :
    writeWrap shape (parts.printed layout) wrapper hint =
      Expr.print layout <$> wrap shape parts wrapper hint := by
  cases parts with
  | none => rfl
  | many ps => rfl
  | one p =>
    show (recordEach (some wrapper :: aliases [p]) >>= fun _ =>
      writeArgument (p.printed layout) hint >>= fun a => pure (Expr.application wrapper [a])) = _
    simp only [wrap, writeArgument_printed, map_bind, map_pure, bind_map_left, Expr.print]

/-- The pieces of printed parts are refused where the parts are, or are those parts printed. -/
theorem listedPieces_printed (shape : Shape) (parts : Parts) (f : List Piece → Recording α) :
    (listedPieces shape (parts.printed layout) >>= f) =
      listed shape parts >>= fun ps => f (ps.map (Part.printed layout)) := by
  cases parts with
  | none => rfl
  | one p => rfl
  | many ps => rfl

theorem writeWrapTwo_printed (shape : Shape) (parts : Parts) (wrapper : String) :
    writeWrapTwo shape (parts.printed layout) wrapper =
      Expr.print layout <$> wrapTwo shape parts wrapper := by
  rw [writeWrapTwo, wrapTwo, listedPieces_printed, map_bind]
  refine bind_congr fun ps => ?_
  -- only a list of two is not refused
  rcases ps with _ | ⟨a, _ | ⟨b, _ | ⟨c, ps⟩⟩⟩
  case cons.cons.nil =>
    have hnames : declaredNames [a.printed layout, b.printed layout] = aliases [a, b] :=
      declaredNames_printed [a, b]
    simp only [List.map_cons, List.map_nil, hnames, writeArgument_printed, map_bind, map_pure,
      bind_map_left, Expr.print]
  all_goals rfl

theorem writeMember_printed (p : Part) :
    writeMember (p.printed layout) = Expr.print layout <$> renderMember p := by
  unfold writeMember renderMember
  show (match p.head.alias? with | some name => _ | none => _) = _
  cases p.head.alias? with
  | none => rfl
  | some name =>
    show (record name >>= fun _ => writeNamed name p.head.hint?) = _
    rw [map_bind]
    exact bind_congr fun _ => writeNamed_eq _ _

theorem writeFields_printed (index : Nat) (ps : List Part) :
    writeFields layout index (ps.map (Part.printed layout)) =
      Expr.printFields layout <$> renderFields index ps := by
  induction ps generalizing index with
  | nil => rfl
  | cons p ps ih =>
    rw [List.map_cons, writeFields, renderFields, writeMember_printed]
    simp only [ih, map_bind, map_pure, bind_map_left, Expr.printFields]
    rfl

theorem writeMembers_printed (ps : List Part) :
    (ps.map (Part.printed layout)).mapM writeMember =
      Expr.printEach layout <$> ps.mapM renderMember := by
  induction ps with
  | nil => rfl
  | cons p ps ih =>
    rw [List.map_cons, List.mapM_cons, List.mapM_cons, writeMember_printed]
    simp only [ih, map_bind, map_pure, bind_map_left, Expr.printEach]

theorem writeAliasOr_printed (h : Head) {rule : Recording String} {rule' : Recording Expr}
    (hrule : rule = Expr.print layout <$> rule') :
    writeAliasOr h rule = Expr.print layout <$> aliasOr h rule' := by
  unfold writeAliasOr aliasOr
  cases h.alias? with
  | none => exact hrule
  | some name => rfl

/-! ## The two agree -/

/-- What a rule writes is what it renders, printed. -/
theorem writeRule_printed {follow : Shape → Recording String} {follow' : Shape → Recording Expr}
    (hf : ∀ entry, follow entry = Expr.print layout <$> follow' entry) (shape : Shape)
    (parts : Parts) (hint : Option String) :
    writeRule r layout follow shape (parts.printed layout) hint =
      Expr.print layout <$> rule r follow' shape parts hint := by
  unfold writeRule rule
  dsimp only
  cases shape.head.tag with
  | vecFixed =>
    cases parts with
    | none => rfl
    | many ps => rfl
    | one p =>
      show (if p.head.type = "u8" then _ else _) = _ <$> (if p.head.type = "u8" then _ else _)
      by_cases hbytes : p.head.type = "u8"
      · rw [if_pos hbytes, if_pos hbytes, map_bind]
        rfl
      · rw [if_neg hbytes, if_neg hbytes]
        exact writeWrap_printed shape (.one p) "Vec" none
  | bTreeMap => exact writeWrapTwo_printed _ _ _
  | hashMap => exact writeWrapTwo_printed _ _ _
  | result => exact writeWrapTwo_printed _ _ _
  | doNotConstruct => rw [map_bind]; rfl
  | null => rw [map_bind]; rfl
  | enum => exact writeAliasOr_printed _ rfl
  | plain =>
    refine writeAliasOr_printed _ ?_
    rw [map_bind]
    exact bind_congr fun _ => writeNamed_eq _ _
  | struct =>
    refine writeAliasOr_printed _ ?_
    simp only [listedPieces_printed, declaredNames_printed, writeFields_printed, map_bind, map_pure,
      bind_map_left, Expr.print]
  | tuple =>
    refine writeAliasOr_printed _ ?_
    simp only [listedPieces_printed, declaredNames_printed, writeMembers_printed, map_bind,
      map_pure, bind_map_left, Expr.print]
  | si =>
    dsimp only
    rw [map_bind]
    exact bind_congr hf
  | int => rfl
  | uInt => rfl
  | range => rfl
  | set => rfl
  | _ => exact writeWrap_printed _ _ _ _

theorem writePieces_eq {follow : Shape → Recording String} {follow' : Shape → Recording Expr}
    {cs : List Shape} (h : ∀ c ∈ cs, ∀ hint, writeShape r layout follow c hint =
      Expr.print layout <$> renderShape r follow' c hint) :
    writePieces r layout follow cs = (renderParts r follow' cs).map (Part.printed layout) := by
  induction cs with
  | nil => rfl
  | cons c cs ih =>
    have hc : writeShape r layout follow c = fun hint => _ := funext (h c (by simp))
    rw [writePieces, renderParts, List.map_cons, hc, ih fun d hd => h d (List.mem_cons_of_mem _ hd)]
    rfl

/-- What is written for a shape is what it is rendered as, printed. -/
theorem writeShape_eq {follow : Shape → Recording String} {follow' : Shape → Recording Expr}
    (hf : ∀ entry, follow entry = Expr.print layout <$> follow' entry) (shape : Shape)
    (hint : Option String) :
    writeShape r layout follow shape hint =
      Expr.print layout <$> renderShape r follow' shape hint := by
  induction shape using Shape.induction_children generalizing hint with
  | step shape ih =>
    cases shape with
    | leaf h =>
      rw [writeShape, renderShape, map_bind]
      exact bind_congr fun _ => writeRule_printed hf _ .none hint
    | single h c =>
      have hc : writeShape r layout follow c = fun hint => _ :=
        funext (ih c (List.mem_singleton_self c))
      rw [writeShape, renderShape, map_bind, hc]
      exact bind_congr fun _ =>
        writeRule_printed hf _ (.one ⟨c.head, renderShape r follow' c⟩) hint
    | group h cs =>
      have hcs : writePieces r layout follow cs = _ := writePieces_eq ih
      rw [writeShape, renderShape, map_bind, hcs]
      exact bind_congr fun _ => writeRule_printed hf _ (.many _) hint

theorem writeWithin_eq (hops : Nat) (shape : Shape) (hint : Option String) :
    writeWithin r layout hops shape hint =
      Expr.print layout <$> renderWithin r hops shape hint := by
  -- with no hop left both give up at the first indirection
  induction hops generalizing shape hint with
  | zero =>
    have hendless : ∀ entry : Shape, (throw .endless : Recording String) =
        Expr.print layout <$> (fun _ => throw .endless : Shape → Recording Expr) entry :=
      fun _ => rfl
    exact writeShape_eq hendless shape hint
  | succ hops ih => exact writeShape_eq (fun entry => ih entry none) shape hint

theorem write_eq (r : Registry) (layout : Layout) (shape : Shape) (hint : Option String) :
    write r layout shape hint = Expr.print layout <$> render r shape hint :=
  writeWithin_eq _ shape hint

end ChainTypings.Recording
