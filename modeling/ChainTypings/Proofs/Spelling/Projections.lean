import ChainTypings.Proofs.Spelling.Naming

/-!
# Nested projections

A projection `<P as Q>::N` is the item of a name that a type has by a trait. The type may be an item
itself, and so may the arguments of the trait. A projection is recognised only if it holds no other
one, and the text is gone through once: `Projected.once` is what the pass leaves, with the names of
the innermost items in their places (`projection_apply_print`).

So a pass takes one level away (`depth_once`), and the normal spelling of an item is its name if and
only if nothing is nested in it (`normalize_print_item_iff`). As many passes as there are levels
would leave the name of every item (`iterate_projection_item`).
-/

namespace ChainTypings.Spelling

open Text

/-! ## Items -/

theorem isBlank_eq_false_of_isPathChar {c : Char} (h : isPathChar c = true) :
    isBlank c = false := by
  rw [isPathChar, Bool.or_eq_true, decide_eq_true_eq] at h
  rcases h with h | rfl
  · cases hb : isBlank c with
    | false => rfl
    | true =>
      rw [isWordChar_eq_false_of_isBlank hb] at h
      cases h
  · rfl

/-- A path to a word. -/
structure Path where
  segments : List Segment
  word : AsciiWord

namespace Path

/-- The text of a path. -/
def chars (p : Path) : List Char := pathChars p.segments ++ p.word.chars

theorem isPathChar_chars (p : Path) : ∀ c ∈ p.chars, isPathChar c = true := by
  intro c hc
  simp only [chars, pathChars, List.mem_append, List.mem_flatMap, List.mem_cons, List.not_mem_nil,
    or_false] at hc
  rw [isPathChar, Bool.or_eq_true, decide_eq_true_eq]
  rcases hc with ⟨s, -, rfl | hc | rfl | rfl⟩ | hc
  · exact .inl (s.isWordChar _ (by simp))
  · exact .inl (s.isWordChar c (by simp [hc]))
  · exact .inr rfl
  · exact .inr rfl
  · exact .inl (p.word.isWordChar c hc)

theorem not_mem_chars {c : Char} (hc : isPathChar c = false) (p : Path) : c ∉ p.chars := by
  intro hmem
  rw [p.isPathChar_chars c hmem] at hc
  cases hc

theorem exists_cons (p : Path) : ∃ c cs, p.chars = c :: cs :=
  List.exists_cons_of_ne_nil (by simp [chars, p.word.ne_nil])

end Path

/-- A path or an item of a trait, with blanks in front or not. -/
inductive Projected where
  | path (path : Path)
  /-- The item of a name that a type has by a trait, which may have arguments. -/
  | item (self : Projected) (trait : Path) (arguments : List Projected) (name : AsciiWord)
  | spaced (blanks : Blanks) (content : Projected)

namespace Projected

/-- Induction on items, with a hypothesis for each argument. -/
@[elab_as_elim, induction_eliminator]
theorem induction {motive : Projected → Prop} (path : ∀ p, motive (.path p))
    (item : ∀ s t ds n, motive s → (∀ d ∈ ds, motive d) → motive (.item s t ds n))
    (spaced : ∀ b d, motive d → motive (.spaced b d)) : ∀ d, motive d
  | .path p => path p
  | .item s t ds n =>
    item s t ds n (induction path item spaced s) fun d _ => induction path item spaced d
  | .spaced b d => spaced b d (induction path item spaced d)

/-- The arguments of a trait with their brackets; without arguments there are none. -/
def bracketed : List (List Char) → List Char
  | [] => []
  | ps => '<' :: ([','].intercalate ps ++ ['>'])

mutual

/-- The text as source code writes it. -/
def print : Projected → List Char
  | path p => p.chars
  | item s t ds n =>
    '<' :: (print s ++ ([' ', 'a', 's', ' '] ++ (t.chars ++
      (bracketed (printEach ds) ++ (['>', ':', ':'] ++ n.chars)))))
  | spaced b d => b.chars ++ print d

/-- The texts of several items. -/
def printEach : List Projected → List (List Char)
  | [] => []
  | d :: ds => print d :: printEach ds

end

mutual

/-- How many items stand in one another. -/
def depth : Projected → Nat
  | path _ => 0
  | item s _ ds _ => max (depth s) (depthEach ds) + 1
  | spaced _ d => depth d

/-- How many items stand in one another, at most, in several. -/
def depthEach : List Projected → Nat
  | [] => 0
  | d :: ds => max (depth d) (depthEach ds)

end

mutual

/-- The names of the innermost items in their places. -/
def once : Projected → Projected
  | path p => path p
  | item s t ds n =>
    if max (depth s) (depthEach ds) = 0 then path ⟨[], n⟩ else item (once s) t (onceEach ds) n
  | spaced b d => spaced b (once d)

/-- The names of the innermost items of several in their places. -/
def onceEach : List Projected → List Projected
  | [] => []
  | d :: ds => once d :: onceEach ds

end

/-! ## The text of an item -/

/-- The text of several items with commas between. -/
def joined (ds : List Projected) : List Char := [','].intercalate (printEach ds)

@[simp] theorem joined_singleton (d : Projected) : joined [d] = d.print :=
  List.intercalate_singleton

@[simp] theorem joined_cons_cons (d e : Projected) (ds : List Projected) :
    joined (d :: e :: ds) = d.print ++ ',' :: joined (e :: ds) := by
  simp [joined, printEach, List.intercalate_cons_cons]

theorem bracketed_cons (d : Projected) (ds : List Projected) :
    bracketed (printEach (d :: ds)) = '<' :: (joined (d :: ds) ++ ['>']) := rfl

/-- Behind blanks stands a path or an item. -/
theorem dropWhile_print (d : Projected) (rest : List Char) :
    (∃ p : Path, (d.print ++ rest).dropWhile isBlank = p.chars ++ rest ∧ d.depth = 0) ∨
      ∃ tail, (d.print ++ rest).dropWhile isBlank = '<' :: tail ∧ d.depth ≠ 0 := by
  induction d with
  | path p =>
    obtain ⟨c, cs, hc⟩ := p.exists_cons
    refine .inl ⟨p, ?_, rfl⟩
    have hblank := isBlank_eq_false_of_isPathChar (p.isPathChar_chars c (by simp [hc]))
    rw [print, hc, List.cons_append, List.dropWhile_cons_of_neg (by simp [hblank])]
  | item s t ds n => exact .inr ⟨_, rfl, by simp [depth]⟩
  | spaced b d ih =>
    rw [print, List.append_assoc, List.dropWhile_append_of_pos b.blank]
    exact ih

/-- Whether the character is no angle bracket. -/
def isNoAngle (c : Char) : Bool := !(c = '<' || c = '>')

theorem all_isNoAngle_chars (p : Path) : ∀ c ∈ p.chars, isNoAngle c = true := by
  intro c hc
  have hlt : c ≠ '<' := by rintro rfl; exact p.not_mem_chars rfl hc
  have hgt : c ≠ '>' := by rintro rfl; exact p.not_mem_chars rfl hc
  simp [isNoAngle, hlt, hgt]

theorem all_isNoAngle_blanks (b : Blanks) : ∀ c ∈ b.chars, isNoAngle c = true := by
  intro c hc
  have hne : ∀ {d}, isBlank d = false → c ≠ d := by
    rintro d hd rfl
    rw [b.blank c hc] at hd
    cases hd
  simp [isNoAngle, hne (d := '<') rfl, hne (d := '>') rfl]

/-- The first angle bracket of an item opens one; without items there is none. -/
theorem dropWhile_isNoAngle_print (d : Projected) (rest : List Char) :
    (d.depth = 0 → (d.print ++ rest).dropWhile isNoAngle = rest.dropWhile isNoAngle) ∧
      (d.depth ≠ 0 → ∃ tail, (d.print ++ rest).dropWhile isNoAngle = '<' :: tail) := by
  induction d with
  | path p =>
    exact ⟨fun _ => List.dropWhile_append_of_pos (all_isNoAngle_chars p), fun h => absurd rfl h⟩
  | item s t ds n => exact ⟨fun h => absurd h (by simp [depth]), fun _ => ⟨_, rfl⟩⟩
  | spaced b d ih =>
    rw [print, List.append_assoc, List.dropWhile_append_of_pos (all_isNoAngle_blanks b)]
    exact ih

theorem dropWhile_isNoAngle_joined (ds : List Projected) (rest : List Char) :
    (depthEach ds = 0 → (joined ds ++ rest).dropWhile isNoAngle = rest.dropWhile isNoAngle) ∧
      (depthEach ds ≠ 0 → ∃ tail, (joined ds ++ rest).dropWhile isNoAngle = '<' :: tail) := by
  induction ds with
  | nil => exact ⟨fun _ => rfl, fun h => absurd rfl h⟩
  | cons d ds ih =>
    cases ds with
    | nil => simpa [depthEach] using d.dropWhile_isNoAngle_print rest
    | cons e es =>
      have hd := d.dropWhile_isNoAngle_print (',' :: (joined (e :: es) ++ rest))
      rw [List.dropWhile_cons_of_pos (rfl : isNoAngle ',' = true)] at hd
      rw [joined_cons_cons, List.append_assoc, List.cons_append, depthEach]
      by_cases hzero : d.depth = 0
      · rw [hd.1 hzero, hzero, Nat.zero_max]
        exact ih
      · exact ⟨fun h => absurd h (by omega), fun _ => hd.2 hzero⟩

/-! ## Where a projection is recognised -/

theorem projection_beginsWith : projection.BeginsWith '<' where
  first := by
    intro inWord d cs hd
    simp [projection, removal, afterProjection?, after?, Ne.symm hd]
  anywhere _ _ := rfl

/-- An item that starts with an item is not recognised. -/
theorem afterProjection?_of_lt {cs tail : List Char} (h : cs.dropWhile isBlank = '<' :: tail) :
    afterProjection? ('<' :: cs) = none := by
  have hlt : isPathChar '<' = false := rfl
  simp [afterProjection?, after?, h, afterSome?, hlt]

/-- Behind the path that an item starts with the recogniser asks for the trait. -/
theorem afterProjection?_of_path {cs rest : List Char} {p : Path} {c : Char}
    (hc : isPathChar c = false) (h : cs.dropWhile isBlank = p.chars ++ c :: rest) :
    afterProjection? ('<' :: cs) = (do
      let cs ← afterSome? isBlank (c :: rest)
      let cs ← after? ['a', 's'] cs
      let cs ← afterSome? isBlank cs
      let cs ← afterSome? isPathChar cs
      after? ['>', ':', ':'] ((afterArguments cs).dropWhile isBlank)) := by
  obtain ⟨x, xs, hx⟩ := p.exists_cons
  have hrun := afterSome?_run (by simp [hx]) p.isPathChar_chars hc rest
  simp only [afterProjection?, after?, if_true, Option.bind_eq_bind, Option.bind_some, h, hrun]

/-- The opening bracket of arguments starts no projection. -/
theorem afterProjection?_joined (d : Projected) (ds : List Projected) (rest : List Char) :
    afterProjection? ('<' :: (joined (d :: ds) ++ '>' :: rest)) = none := by
  -- behind the first argument stands a comma or the closing bracket, but no blank
  obtain ⟨c, tail, heq, hpath, hblank⟩ : ∃ c tail,
      joined (d :: ds) ++ '>' :: rest = d.print ++ c :: tail ∧
        isPathChar c = false ∧ isBlank c = false := by
    cases ds with
    | nil => exact ⟨'>', rest, by simp, rfl, rfl⟩
    | cons e es => exact ⟨',', joined (e :: es) ++ '>' :: rest, by simp, rfl, rfl⟩
  rw [heq]
  rcases d.dropWhile_print (c :: tail) with ⟨p, hdrop, -⟩ | ⟨_, hdrop, -⟩
  · rw [afterProjection?_of_path hpath hdrop]
    simp [afterSome?, hblank]
  · exact afterProjection?_of_lt hdrop

/-- What follows the arguments of a trait is reached only if no item is among them. -/
theorem after?_afterArguments (ds : List Projected) (rest : List Char) :
    after? ['>', ':', ':'] ((afterArguments
      (bracketed (printEach ds) ++ '>' :: ':' :: ':' :: rest)).dropWhile isBlank) =
        if depthEach ds = 0 then some rest else none := by
  cases ds with
  | nil => rfl
  | cons d ds =>
    rw [bracketed_cons, List.cons_append, List.append_assoc, List.singleton_append]
    obtain ⟨hflat, hnested⟩ :=
      dropWhile_isNoAngle_joined (d :: ds) ('>' :: '>' :: ':' :: ':' :: rest)
    simp only [afterArguments]
    split
    · next tail hdrop =>
      by_cases hzero : depthEach (d :: ds) = 0
      · have hgt : '>' :: '>' :: ':' :: ':' :: rest = '>' :: tail := (hflat hzero).symm.trans hdrop
        rw [if_pos hzero, ← (List.cons.inj hgt).2]
        rfl
      · obtain ⟨_, hlt⟩ := hnested hzero
        exact absurd (List.cons.inj (hlt.symm.trans hdrop)).1 (by decide)
    · next hdrop =>
      by_cases hzero : depthEach (d :: ds) = 0
      · exact absurd (hflat hzero) (hdrop _)
      · rw [if_neg hzero]
        rfl

/-- An item is recognised if and only if no other is in it. -/
theorem afterProjection?_item (s : Projected) (t : Path) (ds : List Projected) (n : AsciiWord)
    (rest : List Char) :
    afterProjection? ((item s t ds n).print ++ rest) =
      if max s.depth (depthEach ds) = 0 then some (n.chars ++ rest) else none := by
  -- the text behind the trait starts with a bracket
  obtain ⟨c, tail, htail, hc⟩ : ∃ c tail,
      bracketed (printEach ds) ++ '>' :: ':' :: ':' :: (n.chars ++ rest) = c :: tail ∧
        isPathChar c = false := by
    cases ds with
    | nil => exact ⟨'>', _, rfl, rfl⟩
    | cons d ds => exact ⟨'<', _, rfl, rfl⟩
  have hprint : (item s t ds n).print ++ rest =
      '<' :: (s.print ++ ' ' :: 'a' :: 's' :: ' ' :: (t.chars ++ c :: tail)) := by
    simp [print, ← htail]
  rw [hprint]
  rcases s.dropWhile_print (' ' :: 'a' :: 's' :: ' ' :: (t.chars ++ c :: tail)) with
    ⟨p, hdrop, hzero⟩ | ⟨_, hdrop, hne⟩
  · obtain ⟨x, xs, hx⟩ := t.exists_cons
    have hblank := isBlank_eq_false_of_isPathChar (t.isPathChar_chars x (by simp [hx]))
    have hfront : afterSome? isBlank (' ' :: 'a' :: 's' :: ' ' :: (t.chars ++ c :: tail)) =
        some ('a' :: 's' :: ' ' :: (t.chars ++ c :: tail)) := rfl
    have hword : after? ['a', 's'] ('a' :: 's' :: ' ' :: (t.chars ++ c :: tail)) =
        some (' ' :: (t.chars ++ c :: tail)) := rfl
    have hbehind : afterSome? isBlank (' ' :: (t.chars ++ c :: tail)) =
        some (t.chars ++ c :: tail) := by
      rw [hx]
      have hgap : ∀ y ∈ [' '], isBlank y = true := by
        intro y hy
        obtain rfl := List.mem_singleton.1 hy
        rfl
      exact afterSome?_run (by simp) hgap hblank _
    have htrait := afterSome?_run (by simp [hx]) t.isPathChar_chars hc tail
    rw [afterProjection?_of_path rfl hdrop, hfront]
    simp only [Option.bind_eq_bind, Option.bind_some, hword, hbehind, htrait]
    rw [← htail, after?_afterArguments, hzero, Nat.zero_max]
  · rw [afterProjection?_of_lt hdrop, if_neg (by omega)]

/-! ## One pass -/

theorem printEach_eq_map (ds : List Projected) : printEach ds = ds.map print := by
  induction ds with
  | nil => rfl
  | cons d ds ih => rw [printEach, ih, List.map_cons]

theorem onceEach_eq_map (ds : List Projected) : onceEach ds = ds.map once := by
  induction ds with
  | nil => rfl
  | cons d ds ih => rw [onceEach, ih, List.map_cons]

theorem projection_apply_bracketed {ds : List Projected}
    (h : ∀ d ∈ ds, ∀ rest,
      projection.apply (d.print ++ rest) = d.once.print ++ projection.apply rest)
    (rest : List Char) :
    projection.apply (bracketed (printEach ds) ++ rest) =
      bracketed (printEach (onceEach ds)) ++ projection.apply rest := by
  cases ds with
  | nil => rfl
  | cons d ds =>
    have hds := projection_beginsWith.apply_intercalate h (s := ',') (by decide)
      ('>' :: rest)
    have hnone : projection.find? false ('<' :: (joined (d :: ds) ++ '>' :: rest)) = none := by
      simp only [projection, removal, afterProjection?_joined]
      rfl
    rw [← printEach_eq_map, ← Function.comp_def, ← List.map_map, ← onceEach_eq_map,
      ← printEach_eq_map] at hds
    rw [bracketed_cons, List.cons_append, List.append_assoc, List.singleton_append,
      projection_beginsWith.apply_of_none hnone]
    refine congrArg ('<' :: ·) (hds.trans ?_)
    rw [projection_beginsWith.apply_cons (by decide)]
    simp [onceEach]

/-- What a pass makes of an item, whatever follows. -/
theorem projection_apply_print (d : Projected) (rest : List Char) :
    projection.apply (d.print ++ rest) = d.once.print ++ projection.apply rest := by
  have keep := fun {xs} (h : '<' ∉ xs) rest => projection_beginsWith.apply_append h rest
  induction d generalizing rest with
  | path p => exact keep (p.not_mem_chars rfl) rest
  | spaced b d ih =>
    have hb : '<' ∉ b.chars := fun hmem => absurd (b.blank _ hmem) (by decide)
    rw [print, List.append_assoc, keep hb, ih, once, print, List.append_assoc]
  | item s t ds n ihs ihds =>
    have hname : '<' ∉ n.chars := n.not_mem_chars rfl
    have hfind : projection.find? false ((item s t ds n).print ++ rest) =
        (if max s.depth (depthEach ds) = 0 then some (n.chars ++ rest) else none).map
          fun rest => ([], rest) :=
      congrArg (Option.map fun rest => ([], rest)) (afterProjection?_item s t ds n rest)
    rw [once]
    split
    · next hzero =>
      rw [if_pos hzero] at hfind
      rw [Rule.apply, Rule.applyFrom_of_some hfind]
      exact keep hname rest
    · next hne =>
      have hgap : '<' ∉ [' ', 'a', 's', ' '] := by decide
      have hend : '<' ∉ ['>', ':', ':'] := by decide
      have hopen : (item s t ds n).print ++ rest =
          '<' :: (s.print ++ ([' ', 'a', 's', ' '] ++ (t.chars ++
            (bracketed (printEach ds) ++ (['>', ':', ':'] ++ (n.chars ++ rest)))))) := by
        simp [print]
      rw [if_neg hne, hopen] at hfind
      rw [hopen, projection_beginsWith.apply_of_none hfind, ihs, keep hgap,
        keep (t.not_mem_chars rfl), projection_apply_bracketed ihds, keep hend, keep hname]
      simp [print]

/-! ## Several passes -/

/-- A pass takes one level away. -/
theorem depth_once (d : Projected) : d.once.depth = d.depth - 1 := by
  induction d with
  | path p => rfl
  | spaced b d ih => rw [once, depth, depth, ih]
  | item s t ds n ihs ihds =>
    have each : depthEach (onceEach ds) = depthEach ds - 1 := by
      induction ds with
      | nil => rfl
      | cons d ds ih =>
        have hd := ihds d (by simp)
        have hds := ih fun e he => ihds e (List.mem_cons_of_mem _ he)
        rw [onceEach, depthEach, depthEach, hd, hds]
        omega
    rw [once]
    split
    · next hzero => rw [depth, depth, hzero]
    · next hne =>
      rw [depth, depth, ihs, each]
      omega

/-- As many passes as an item has levels leave its name. -/
theorem iterate_projection_item (s : Projected) (t : Path) (ds : List Projected) (n : AsciiWord) :
    projection.apply^[(item s t ds n).depth] (item s t ds n).print = n.chars := by
  induction hm : (item s t ds n).depth generalizing s ds with
  | zero => exact absurd hm (by simp [depth])
  | succ m ih =>
    have hpass := (item s t ds n).projection_apply_print []
    simp only [List.append_nil, Rule.apply_nil] at hpass
    have hdepth := (item s t ds n).depth_once
    rw [Function.iterate_succ_apply, hpass]
    rw [once] at hdepth ⊢
    split at hdepth
    · next hzero =>
      rw [if_pos hzero]
      obtain rfl : m = 0 := by
        rw [depth, hzero] at hm
        omega
      rfl
    · next hne =>
      rw [if_neg hne]
      exact ih _ _ (by omega)

end Projected

/-! ## The normal spelling -/

theorem head?_unbox {cs : List Char} (h : cs.head? = some '<') : (unbox cs).head? = some '<' := by
  fun_induction unbox cs with
  | case1 cs new hdrop ih =>
    obtain ⟨before, inside, after, k, rfl, rfl⟩ := dropBox?_eq hdrop
    refine ih ?_
    -- the word of the box is not what the text starts with
    cases before with
    | nil => exact absurd (Option.some.inj h) (by decide)
    | cons c before => exact h
  | case2 => exact h

theorem head?_flatten {cs : List Char} (h : cs.head? = some '<') :
    (flatten cs).head? = some '<' := by
  have round : ∀ {cs : List Char}, cs.head? = some '<' →
      (oneElement.apply cs).head? = some '<' := by
    intro cs h
    obtain ⟨tail, rfl⟩ := List.head?_eq_some_iff.1 h
    rw [oneElement_beginsWith.apply_cons (by decide)]
    rfl
  fun_induction flatten cs with
  | case1 cs once _ ih => exact ih (round h)
  | case2 cs once _ => exact round h

/-- An angle bracket that the first pass leaves at the start stays there. -/
theorem head?_normalize {cs tail : List Char} (h : projection.apply cs = '<' :: tail) :
    (normalize cs).head? = some '<' := by
  have hpath := path_apply_mark (c := '<') rfl (by decide) tail
  have hreference := (reference_cuts (c := '<') rfl rfl (by decide) (by decide)).splitsAt.cons
    reference.apply_nil (path.apply tail)
  rw [normalize, h, hpath, hreference, List.filter_cons_of_pos (by rfl)]
  have hopen : ∀ xs : List Char, ∃ rest, unbox ('<' :: xs) = '<' :: rest :=
    fun xs => List.head?_eq_some_iff.1 (head?_unbox rfl)
  obtain ⟨rest, hrest⟩ := hopen ((reference.apply (path.apply tail)).filter (!isBlank ·))
  rw [hrest]
  refine head?_flatten ?_
  rw [((textAlias_cuts (c := '<') rfl).splitsAt).cons textAlias.apply_nil, Rule.apply,
    bytesAlias_applyFrom_cons (by decide) (by decide)]
  rfl

/-- A name is left as it is. -/
theorem normalize_of_projection {cs : List Char} {n : AsciiWord} (hn : n.isText = false)
    (h : projection.apply cs = n.chars) : normalize cs = n.chars := by
  have htidy := (Phrase.Unboxed.name n).tidy_print
  rw [Phrase.print] at htidy
  rw [normalize, h, path_apply_word n.isWordChar, reference_apply_eq_self (n.not_mem_chars rfl)]
  have hfilter := (Phrase.name n).filter_print
  rw [Phrase.print] at hfilter
  simp only [hfilter, htidy]
  exact congrArg AsciiWord.chars (AsciiWord.renamed_eq_self hn)

namespace Projected

/-- The normal spelling of an item is its name if and only if no item is in it. -/
theorem normalize_print_item_iff (s : Projected) (t : Path) (ds : List Projected) {n : AsciiWord}
    (hn : n.isText = false) :
    normalize (item s t ds n).print = n.chars ↔ (item s t ds n).depth = 1 := by
  have hpass := (item s t ds n).projection_apply_print []
  simp only [List.append_nil, Rule.apply_nil] at hpass
  rw [once] at hpass
  constructor
  · intro hname
    by_contra hdepth
    rw [if_neg (by rw [depth] at hdepth; omega)] at hpass
    have hhead := head?_normalize hpass
    rw [hname] at hhead
    exact n.not_mem_chars rfl (List.mem_of_mem_head? hhead)
  · intro hdepth
    rw [if_pos (by rw [depth] at hdepth; omega)] at hpass
    exact normalize_of_projection hn hpass

/-- An item of a type by a trait with two arguments. -/
def balance : Projected :=
  .item (.path ⟨[], .of ['T']⟩)
    ⟨[⟨'f', "rame_system".toList, by decide, List.all_eq_true.1 rfl⟩],
      .of "Config".toList⟩
    [.path ⟨[], .of ['I']⟩, .spaced ⟨[' '], List.all_eq_true.1 rfl⟩ (.path ⟨[], .of ['J']⟩)]
    (.of "Balance".toList)

theorem print_balance :
    balance.print = "<T as frame_system::Config<I, J>>::Balance".toList := by
  decide

/-- Arguments do not hinder if they are paths. -/
theorem normalize_print_balance :
    (AsciiWord.of "Balance".toList).isText = false ∧
      normalize "<T as frame_system::Config<I, J>>::Balance".toList = "Balance".toList := by
  have hname : (AsciiWord.of "Balance".toList).isText = false := by decide
  have hdepth : balance.depth = 1 := by decide
  rw [← print_balance]
  exact ⟨hname, (normalize_print_item_iff _ _ _ hname).2 hdepth⟩

/-- An item of an item, and an item among the arguments of a trait. -/
theorem normalize_nested_ne :
    normalize "<<T as Config>::Currency as Currency<AccountId>>::Balance".toList ≠
        "Balance".toList ∧
      normalize "<T as Currency<<T as Config>::AccountId>>::Balance".toList ≠
        "Balance".toList := by
  decide +kernel

end Projected

end ChainTypings.Spelling
