import ChainTypings.Proofs.Bracket.Check
import ChainTypings.Proofs.Spelling.Undecorating
import ChainTypings.Shape.Parse

/-!
# Unbalanced type texts

Whether the brackets of a type text balance is asked of its normal spelling, after the passes have
rewritten it. Most of them neither take out nor put in a bracket that has no partner. Three do:
the removal of projections, the opening of boxes and the dropping of parentheses around one
element take out their pieces by criteria of their own, and what stands in such a piece is not
looked at (`parse_unbalanced_pieces`).

`parseNamed_of_unbalanced` says how far the refusal reaches all the same. `takenOut` lists the
pieces that the three passes take out of a text. If each of them is balanced, an unbalanced text
is refused. And boxes and parentheses never make up for a bracket too many or too few, whatever
stands in them: for the check that only counts the projections are all that matters.
-/

namespace ChainTypings

namespace Spelling

open ChainTypings.Bracket Text

/-! ## The pieces that are taken out -/

/-- What stands in front of a remainder of a text. -/
def upTo (rest cs : List Char) : List Char := cs.take (cs.length - rest.length)

@[simp] theorem upTo_append (piece rest : List Char) : upTo rest (piece ++ rest) = piece := by
  simp [upTo]

namespace Rule

/-- The pieces that the rule recognises, from left to right. -/
def piecesFrom (r : Rule) (inWord : Bool) (cs : List Char) : List (List Char) :=
  match _found : r.find? inWord cs with
  | some (_, rest) => upTo rest cs :: r.piecesFrom false rest
  | none =>
    match cs with
    | [] => []
    | c :: cs => r.piecesFrom (isWordChar c) cs
termination_by cs.length
decreasing_by
  · exact r.shorter _found
  · exact Nat.lt_succ_self _

/-- The pieces that the rule recognises in a whole text. -/
def pieces (r : Rule) (cs : List Char) : List (List Char) := r.piecesFrom false cs

theorem piecesFrom_of_some {r : Rule} {inWord : Bool} {cs new rest : List Char}
    (h : r.find? inWord cs = some (new, rest)) :
    r.piecesFrom inWord cs = upTo rest cs :: r.piecesFrom false rest := by
  rw [piecesFrom]
  split
  · next h' =>
    obtain ⟨rfl, rfl⟩ := Prod.mk.inj (Option.some.inj (h'.symm.trans h))
    rfl
  · next h' => simp [h'] at h

theorem piecesFrom_of_none {r : Rule} {inWord : Bool} {c : Char} {cs : List Char}
    (h : r.find? inWord (c :: cs) = none) :
    r.piecesFrom inWord (c :: cs) = r.piecesFrom (isWordChar c) cs := by
  rw [piecesFrom]
  split
  · next h' => simp [h'] at h
  · rfl

end Rule

/-- The first box of a text, with its word and both brackets. -/
def boxPiece (cs : List Char) : List Char :=
  match firstBox? false cs with
  | none => []
  | some (before, rest) =>
    match enclosed 0 rest with
    | none => []
    | some (_, after) => upTo after (cs.drop before.length)

/-- The boxes that are dropped, in the order in which they go. -/
def boxes (cs : List Char) : List (List Char) :=
  match _found : dropBox? cs with
  | some new => boxPiece cs :: boxes new
  | none => []
termination_by cs.length
decreasing_by exact dropBox?_shorter _found

/-- The elements that lose their parentheses, with these, round by round. -/
def singles (cs : List Char) : List (List Char) :=
  let once := oneElement.apply cs
  oneElement.pieces cs ++ if once.length < cs.length then singles once else []
termination_by cs.length

/-- The text without projections, paths, references and blanks. -/
def compact (cs : List Char) : List Char :=
  (reference.apply (path.apply (projection.apply cs))).filter (!isBlank ·)

/-- The pieces that make way, with their brackets, for less than they hold: the projections, the
boxes and the elements in parentheses. -/
def takenOut (text : List Char) : List (List Char) :=
  projection.pieces text ++
    (boxes (compact text) ++ singles (bytesAlias.apply (textAlias.apply (unbox (compact text)))))

/-! ## Pieces without brackets -/

/-- Whether the character is no bracket. -/
def IsPlain (c : Char) : Prop := isOpener c = false ∧ isCloser c = false

theorem isPlain_of_isWordChar {c : Char} (h : isWordChar c = true) : IsPlain c :=
  ⟨isOpener_eq_false_of_isWordChar h, isCloser_eq_false_of_isWordChar h⟩

theorem isPlain_of_isBlank {c : Char} (h : isBlank c = true) : IsPlain c := by
  refine ⟨?_, ?_⟩
  · by_contra ho
    rw [Bool.not_eq_false] at ho
    exact absurd h (by rw [isBlank_eq_false_of_isMark (isMark_of_isOpener ho)]; decide)
  · by_contra hc
    rw [Bool.not_eq_false] at hc
    exact absurd h (by rw [isBlank_eq_false_of_isMark (isMark_of_isCloser hc)]; decide)

theorem isBalanced_of_forall_isPlain {cs : List Char} (h : ∀ c ∈ cs, IsPlain c) :
    isBalanced cs = true := by
  have hnested : Nested (fun _ => True) cs :=
    .of_forall (fun c hc => (h c hc).1) (fun c hc => (h c hc).2) fun _ _ => trivial
  exact isBalanced_of_nested hnested

theorem forall_mem_takeWhile {p : Char → Bool} {cs : List Char} :
    ∀ c ∈ cs.takeWhile p, p c = true :=
  fun c hc => List.all_eq_true.1 List.all_takeWhile c hc

/-- A rule that takes balanced pieces out and puts balanced pieces in. -/
def Rule.IsTidy (r : Rule) : Prop :=
  ∀ {inWord : Bool} {cs new rest : List Char}, r.find? inWord cs = some (new, rest) →
    ∃ piece, cs = piece ++ rest ∧ isBalanced piece = true ∧ isBalanced new = true

theorem isTidy_path : path.IsTidy := by
  intro inWord cs new rest hfind
  obtain ⟨tail, hsegment, heq⟩ := Option.map_eq_some_iff.1 hfind
  obtain ⟨rfl, rfl⟩ := Prod.mk.inj heq
  unfold afterSegment? at hsegment
  split at hsegment
  · next c cs =>
    split at hsegment
    · next hstart =>
      rw [Bool.and_eq_true] at hstart
      have hcolons := after?_eq hsegment
      have hfirst := isPlain_of_isWordChar (isWordChar_of_isSegmentStart hstart.2)
      refine ⟨c :: (cs.takeWhile isWordChar ++ [':', ':']), ?_, ?_, rfl⟩
      · rw [List.cons_append, List.append_assoc, ← hcolons, List.takeWhile_append_dropWhile]
      · refine isBalanced_of_forall_isPlain ?_
        intro d hd
        rcases List.mem_cons.1 hd with rfl | hd
        · exact hfirst
        · rcases List.mem_append.1 hd with hd | hd
          · exact isPlain_of_isWordChar (forall_mem_takeWhile d hd)
          · obtain rfl : d = ':' := by simpa using hd
            exact ⟨rfl, rfl⟩
    · exact absurd hsegment (by simp)
  · exact absurd hsegment (by simp)

/-- A lifetime holds no bracket. -/
theorem exists_of_afterLifetime (cs : List Char) :
    ∃ mark, cs = mark ++ afterLifetime cs ∧ ∀ c ∈ mark, IsPlain c := by
  unfold afterLifetime
  split
  · next word =>
    cases hword : afterSome? isWordChar word with
    | none => exact ⟨[], rfl, by simp⟩
    | some rest =>
      obtain ⟨c, run, rfl, hrun⟩ := afterSome?_eq hword
      refine ⟨'\'' :: c :: run, rfl, ?_⟩
      intro d hd
      rcases List.mem_cons.1 hd with rfl | hd
      · exact ⟨rfl, rfl⟩
      · exact isPlain_of_isWordChar (hrun d hd)
  · exact ⟨[], rfl, by simp⟩

theorem isTidy_reference : reference.IsTidy := by
  intro inWord cs new rest hfind
  obtain ⟨tail, hreference, heq⟩ := Option.map_eq_some_iff.1 hfind
  obtain ⟨rfl, rfl⟩ := Prod.mk.inj heq
  obtain ⟨front, hmark, rfl⟩ := Option.map_eq_some_iff.1 hreference
  obtain rfl := after?_eq hmark
  obtain ⟨mark, hlifetime, hplain⟩ := exists_of_afterLifetime front
  refine ⟨'&' :: (mark ++ (afterLifetime front).takeWhile isBlank), ?_, ?_, rfl⟩
  · rw [List.cons_append, List.cons_append, List.nil_append, List.append_assoc,
      List.takeWhile_append_dropWhile, ← hlifetime]
  · refine isBalanced_of_forall_isPlain ?_
    intro d hd
    rcases List.mem_cons.1 hd with rfl | hd
    · exact ⟨rfl, rfl⟩
    · rcases List.mem_append.1 hd with hd | hd
      · exact hplain d hd
      · exact isPlain_of_isBlank (forall_mem_takeWhile d hd)

theorem isTidy_textAlias : textAlias.IsTidy := by
  intro inWord cs new rest hfind
  unfold textAlias textWord? at hfind
  dsimp only at hfind
  split at hfind
  · exact absurd hfind (by simp)
  · split at hfind
    · obtain ⟨rfl, rfl⟩ := Prod.mk.inj (Option.some.inj hfind)
      refine ⟨cs.takeWhile isWordChar, List.takeWhile_append_dropWhile.symm, ?_, rfl⟩
      refine isBalanced_of_forall_isPlain ?_
      intro c hc
      exact isPlain_of_isWordChar (forall_mem_takeWhile c hc)
    · exact absurd hfind (by simp)

theorem isTidy_bytesAlias : bytesAlias.IsTidy := by
  intro inWord cs new rest hfind
  unfold bytesAlias byteSequence? at hfind
  dsimp only at hfind
  split at hfind
  · exact absurd hfind (by simp)
  · obtain ⟨tail, hpiece, heq⟩ := Option.map_eq_some_iff.1 hfind
    obtain ⟨rfl, rfl⟩ := Prod.mk.inj heq
    obtain ⟨piece, hmem, hpiece⟩ := List.exists_of_findSome?_eq_some hpiece
    refine ⟨piece, after?_eq hpiece, ?_, rfl⟩
    simp only [List.mem_cons, List.not_mem_nil, or_false] at hmem
    rcases hmem with rfl | rfl <;> rfl

/-! ## What each pass does to a check -/

section

variable {σ : Type} {check : Check σ}

/-- A fault survives a rule that lets it survive at each piece. `P` is what is known of the
pieces. -/
theorem survives_apply {r : Rule} {P : List Char → Prop}
    (step : ∀ {inWord cs new rest out}, r.find? inWord cs = some (new, rest) → P (upTo rest cs) →
      check.Survives rest out → check.Survives cs (new ++ out))
    {cs : List Char} (h : ∀ piece ∈ r.pieces cs, P piece) : check.Survives cs (r.apply cs) := by
  refine Rule.apply_cases (r := r) (P := fun inWord cs =>
    (∀ piece ∈ r.piecesFrom inWord cs, P piece) → check.Survives cs (r.applyFrom inWord cs))
    ?nil ?replaced ?kept false cs h
  case nil =>
    intro inWord _
    rw [Rule.applyFrom_nil]
    exact .refl []
  case replaced =>
    intro inWord cs new rest hfind ih h
    rw [Rule.piecesFrom_of_some hfind] at h
    obtain ⟨hpiece, hrest⟩ := List.forall_mem_cons.1 h
    rw [Rule.applyFrom_of_some hfind]
    exact step hfind hpiece (ih hrest)
  case kept =>
    intro inWord c cs hfind ih h
    rw [Rule.piecesFrom_of_none hfind] at h
    rw [Rule.applyFrom_of_none hfind]
    exact (ih h).cons c

theorem Rule.IsTidy.survives {r : Rule} (hr : r.IsTidy) (cs : List Char) :
    check.Survives cs (r.apply cs) := by
  refine survives_apply (P := fun _ => True) ?_ fun _ _ => trivial
  intro inWord cs new rest out hfind _ hrest
  obtain ⟨piece, rfl, hpiece, hnew⟩ := hr hfind
  exact hrest.replace hpiece hnew

theorem survives_projection {cs : List Char}
    (h : ∀ piece ∈ projection.pieces cs, isBalanced piece = true) :
    check.Survives cs (projection.apply cs) := by
  refine survives_apply (P := (isBalanced · = true)) ?_ h
  intro inWord cs new rest out hfind hpiece hrest
  obtain ⟨tail, hprojection, heq⟩ := Option.map_eq_some_iff.1 hfind
  obtain ⟨rfl, rfl⟩ := Prod.mk.inj heq
  obtain ⟨front, rfl⟩ := (List.suffix_cons ':' tail).trans <| (List.suffix_cons ':' _).trans <|
    (List.suffix_cons '>' _).trans (suffix_of_afterProjection? hprojection)
  rw [upTo_append] at hpiece
  exact hrest.drop hpiece

theorem survives_filter_isBlank (cs : List Char) :
    check.Survives cs (cs.filter (!isBlank ·)) := by
  induction cs with
  | nil => exact .refl []
  | cons c cs ih =>
    by_cases hc : isBlank c = true
    · rw [List.filter_cons_of_neg (by simp [hc])]
      have hblank : isBalanced [c] = true :=
        isBalanced_of_forall_isPlain (by simpa using isPlain_of_isBlank hc)
      exact ih.drop hblank
    · rw [List.filter_cons_of_pos (by simp [hc])]
      exact ih.cons c

theorem survives_compact {cs : List Char}
    (h : ∀ piece ∈ projection.pieces cs, isBalanced piece = true) :
    check.Survives cs (compact cs) :=
  (survives_projection h).trans <| (isTidy_path.survives _).trans <|
    (isTidy_reference.survives _).trans (survives_filter_isBlank _)

variable (check) in
/-- The check loses no fault where a box is opened or an element loses its parentheses, if `P`
holds of these pieces. -/
structure Handles (P : List Char → Prop) : Prop where
  box : ∀ {inside after : List Char} {k : Char},
    enclosed 0 (inside ++ k :: after) = some (inside, after) →
    P ('B' :: 'o' :: 'x' :: '<' :: (inside ++ [k])) → check.Opens '<' inside k
  parentheses : ∀ {element : List Char}, ')' ∉ element → P ('(' :: (element ++ [')'])) →
    check.Opens '(' element ')'

/-- The box that is dropped, and the two brackets of it that the matcher pairs. -/
theorem dropBox?_cases {cs new : List Char} (h : dropBox? cs = some new) :
    ∃ before inside after k,
      cs = before ++ ('B' :: 'o' :: 'x' :: '<' :: (inside ++ k :: after)) ∧
      new = before ++ (inside ++ after) ∧
      boxPiece cs = 'B' :: 'o' :: 'x' :: '<' :: (inside ++ [k]) ∧
      enclosed 0 (inside ++ k :: after) = some (inside, after) := by
  unfold dropBox? at h
  split at h
  · exact absurd h (by simp)
  · next before rest hfirst =>
    obtain ⟨⟨inside, after⟩, henclosed, rfl⟩ := Option.map_eq_some_iff.1 h
    obtain ⟨k, rfl⟩ := enclosed_eq henclosed
    have hcs := firstBox?_eq hfirst
    refine ⟨before, inside, after, k, hcs, rfl, ?_, henclosed⟩
    have hpiece : boxPiece cs = upTo after (cs.drop before.length) := by
      simp only [boxPiece, hfirst, henclosed]
    rw [hpiece, hcs, List.drop_left]
    have := upTo_append ('B' :: 'o' :: 'x' :: '<' :: (inside ++ [k])) after
    simpa using this

theorem survives_unbox {P : List Char → Prop} (hP : Handles check P) {cs : List Char}
    (h : ∀ piece ∈ boxes cs, P piece) : check.Survives cs (unbox cs) := by
  fun_induction unbox cs with
  | case1 cs new hdrop ih =>
    rw [boxes] at h
    split at h
    · next new' hdrop' =>
      obtain rfl := Option.some.inj (hdrop.symm.trans hdrop')
      obtain ⟨hpiece, hnew⟩ := List.forall_mem_cons.1 h
      obtain ⟨before, inside, after, k, rfl, rfl, heq, henclosed⟩ := dropBox?_cases hdrop
      have hopens := hP.box henclosed (heq ▸ hpiece) after
      have hword : check.Survives (['B', 'o', 'x'] ++ (inside ++ after)) (inside ++ after) :=
        (Check.Survives.refl _).drop rfl
      refine (Check.Survives.append before ?_).trans (ih hnew)
      exact (((hopens.cons 'x').cons 'o').cons 'B').trans hword
    · next hnone => exact absurd (hdrop.symm.trans hnone) (by simp)
  | case2 => exact .refl _

theorem forall_mem_of_oneElement? {cs element rest : List Char}
    (h : oneElement? cs = some (element, rest)) : ∀ c ∈ element, isElementChar c = true := by
  unfold oneElement? at h
  split at h
  · dsimp only at h
    split at h
    · split at h
      · exact absurd h (by simp)
      · obtain ⟨rfl, -⟩ := Prod.mk.inj (Option.some.inj h)
        exact forall_mem_takeWhile
    · exact absurd h (by simp)
  · exact absurd h (by simp)

theorem survives_oneElement {P : List Char → Prop} (hP : Handles check P) {cs : List Char}
    (h : ∀ piece ∈ oneElement.pieces cs, P piece) : check.Survives cs (oneElement.apply cs) := by
  refine survives_apply ?_ h
  intro inWord cs element rest out hfind hpiece hrest
  obtain ⟨rfl, -⟩ := oneElement?_eq hfind
  have hpair : upTo rest ('(' :: element ++ ')' :: rest) = '(' :: (element ++ [')']) := by
    have := upTo_append ('(' :: (element ++ [')'])) rest
    simpa using this
  rw [hpair] at hpiece
  have hfound : oneElement? ('(' :: element ++ ')' :: rest) = some (element, rest) := hfind
  have hmem : ')' ∉ element := fun hmem =>
    absurd (forall_mem_of_oneElement? hfound _ hmem) (by decide)
  have hopens := hP.parentheses hmem hpiece rest
  exact hopens.trans (hrest.append element)

theorem survives_flatten {P : List Char → Prop} (hP : Handles check P) {cs : List Char}
    (h : ∀ piece ∈ singles cs, P piece) : check.Survives cs (flatten cs) := by
  fun_induction flatten cs with
  | case1 cs once hshorter ih =>
    rw [singles, if_pos hshorter] at h
    obtain ⟨hround, hlater⟩ := List.forall_mem_append.1 h
    exact (survives_oneElement hP hround).trans (ih hlater)
  | case2 cs once hshorter =>
    rw [singles, if_neg hshorter, List.append_nil] at h
    exact survives_oneElement hP h

/-- A fault of a text survives in its normal spelling if the check handles what is taken out. -/
theorem survives_normalize {P : List Char → Prop} (hP : Handles check P) {text : List Char}
    (hprojection : ∀ piece ∈ projection.pieces text, isBalanced piece = true)
    (hboxes : ∀ piece ∈ boxes (compact text), P piece)
    (hsingles : ∀ piece ∈
      singles (bytesAlias.apply (textAlias.apply (unbox (compact text)))), P piece) :
    check.Survives text (normalize text) :=
  (survives_compact hprojection).trans <| (survives_unbox hP hboxes).trans <|
    (isTidy_textAlias.survives _).trans <| (isTidy_bytesAlias.survives _).trans
    (survives_flatten hP hsingles)

end

/-- Comparing kinds finds every fault around a balanced piece. -/
theorem handles_byKind : Handles byKind (isBalanced · = true) where
  box {inside after k} henclosed hpiece := by
    have hpair : isBalanced ('<' :: (inside ++ [k])) = true := by
      have hword : Nested (fun _ => True) ['B', 'o', 'x'] := nested_of_isBalanced rfl
      rwa [isBalanced, ← closes_append_of_nested hword]
    exact Check.opens_byKind hpair (isBalanced_of_enclosed henclosed hpair)
  parentheses hmem hpiece := Check.opens_byKind hpiece (isBalanced_of_parentheses hmem hpiece)

/-- Counting finds every fault around whatever piece. -/
theorem handles_byCount : Handles byCount fun _ => True where
  box henclosed _ :=
    have hcloser := isCloser_of_enclosed henclosed
    Check.opens_byCount rfl hcloser.2 hcloser.1
  parentheses _ _ := Check.opens_byCount rfl rfl rfl

end Spelling

/-! ## Refusal -/

namespace Shape

open ChainTypings.Bracket Spelling

theorem parse_eq_unbalanced {text : List Char} (h : isBalanced (normalize text) = false) :
    parse text = .error (.unbalanced (String.ofList (normalize text))) := by
  have hread : Construct.read (normalize text) =
      .error (.unbalanced (String.ofList (normalize text))) := by
    rw [Construct.read, h]
    rfl
  have hne : (normalize text).isEmpty = false := by
    rw [List.isEmpty_eq_false_iff]
    intro hnil
    rw [hnil] at h
    exact absurd h (by decide)
  rw [parse_eq, Construct.ofText]
  simp only [hne, Bool.false_eq_true, if_false, hread]

/-- An unbalanced text is refused if each piece that is taken out of it is balanced. A text with a
bracket too many or too few is refused if each projection in it is balanced. -/
theorem parseNamed_of_unbalanced (name : Json) (text : List Char) :
    ((∀ piece ∈ takenOut text, isBalanced piece = true) → isBalanced text = false →
      parseNamed name text = .error (.unbalanced (String.ofList (normalize text)))) ∧
    ((∀ piece ∈ projection.pieces text, isBalanced piece = true) → nests 0 text = false →
      parseNamed name text = .error (.unbalanced (String.ofList (normalize text)))) := by
  have refused : isBalanced (normalize text) = false →
      parseNamed name text = .error (.unbalanced (String.ofList (normalize text))) := by
    intro h
    rw [parseNamed, parse_eq_unbalanced h]
    rfl
  refine ⟨?_, ?_⟩
  · intro hpieces hfault
    obtain ⟨hprojection, hlater⟩ := List.forall_mem_append.1 hpieces
    obtain ⟨hboxes, hsingles⟩ := List.forall_mem_append.1 hlater
    have hsurvives := survives_normalize handles_byKind hprojection hboxes hsingles
    exact refused (hsurvives.refuses hfault)
  · intro hprojection hfault
    have hsurvives := survives_normalize handles_byCount hprojection (fun _ _ => trivial)
      (fun _ _ => trivial)
    have hcounts : nests 0 (normalize text) = false := hsurvives.refuses hfault
    refine refused ?_
    by_contra hbalanced
    rw [Bool.not_eq_false] at hbalanced
    rw [nests_of_isBalanced hbalanced] at hcounts
    cases hcounts

/-- A bracket of a wrong kind around a projection, a box and an element in parentheses, and one too
many in a box. -/
theorem parseNamed_unpaired :
    parseNamed .null "<T as Tr<u8>>::F<Box<(u32)>)".toList =
        .error (.unbalanced (String.ofList (normalize "<T as Tr<u8>>::F<Box<(u32)>)".toList))) ∧
      parseNamed .null "Box<u32)>".toList =
        .error (.unbalanced (String.ofList (normalize "Box<u32)>".toList))) :=
  ⟨(parseNamed_of_unbalanced .null _).1 (by decide +kernel) (by decide +kernel),
    (parseNamed_of_unbalanced .null _).2 (by decide +kernel) (by decide +kernel)⟩

/-- A box, an element in parentheses and a projection whose brackets do not balance: with the piece
the fault is gone, and the text is parsed. -/
theorem parse_unbalanced_pieces :
    (isBalanced "Box<u32)".toList = false ∧
      (parseNamed .null "Box<u32)".toList).isOk = true) ∧
    (isBalanced "[(a]b)".toList = false ∧
      (parseNamed .null "[(a]b)".toList).isOk = true) ∧
    (isBalanced "<T as Trait<(>>::Foo".toList = false ∧
      (parseNamed .null "<T as Trait<(>>::Foo".toList).isOk = true) := by
  decide +kernel

end Shape

end ChainTypings
