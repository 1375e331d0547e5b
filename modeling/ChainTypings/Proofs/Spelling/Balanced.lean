import ChainTypings.Proofs.Spelling.Balance

/-!
# Balanced type texts

A balanced text stays balanced in its normal spelling. What a pass takes out of it is balanced as
well, or it is a pair of brackets that the stack pairs too: the passes look for brackets in other
ways than the stack does, but in balanced text they find the same.

`Check.Survives` serves the other way round here than for unbalanced texts. `Survives ds cs` for a
text `cs` that a pass turns into `ds` says that the pass makes no fault: from whatever state the
stack accepts the text, it accepts what the pass makes of it (`survives_of_normalize`).
-/

namespace ChainTypings

namespace Spelling

open ChainTypings.Bracket Text

/-! ## What a projection is made of -/

theorem exists_of_afterSome? {p : Char → Bool} (hp : ∀ c, p c = true → IsPlain c)
    {cs rest : List Char} (h : afterSome? p cs = some rest) :
    ∃ run, cs = run ++ rest ∧ ∀ c ∈ run, IsPlain c := by
  obtain ⟨c, run, rfl, hrun⟩ := afterSome?_eq h
  exact ⟨c :: run, rfl, fun d hd => hp d (hrun d hd)⟩

theorem exists_of_dropWhile_isBlank (cs : List Char) :
    ∃ run, cs = run ++ cs.dropWhile isBlank ∧ ∀ c ∈ run, IsPlain c :=
  ⟨cs.takeWhile isBlank, List.takeWhile_append_dropWhile.symm,
    fun c hc => isPlain_of_isBlank (forall_mem_takeWhile c hc)⟩

theorem isPlain_of_isPathChar {c : Char} (h : isPathChar c = true) : IsPlain c := by
  rw [isPathChar, Bool.or_eq_true, decide_eq_true_eq] at h
  rcases h with h | rfl
  · exact isPlain_of_isWordChar h
  · exact ⟨rfl, rfl⟩

/-- Arguments in angle brackets that hold no other angle bracket, or nothing. -/
inductive FlatArguments : List Char → Prop
  | none : FlatArguments []
  | some {inside} : '<' ∉ inside → '>' ∉ inside → FlatArguments ('<' :: (inside ++ ['>']))

theorem exists_of_afterArguments (cs : List Char) :
    ∃ arguments, cs = arguments ++ afterArguments cs ∧ FlatArguments arguments := by
  unfold afterArguments
  split
  · next inside =>
    split
    · next rest hrest =>
      have hflat : ∀ c ∈ inside.takeWhile fun c => !(c = '<' || c = '>'),
          (!(c = '<' || c = '>')) = true := forall_mem_takeWhile
      refine ⟨'<' :: (inside.takeWhile (fun c => !(c = '<' || c = '>')) ++ ['>']), ?_, .some ?_ ?_⟩
      · rw [List.cons_append, List.append_assoc, List.singleton_append, ← hrest,
          List.takeWhile_append_dropWhile]
      · exact fun hmem => absurd (hflat _ hmem) (by decide)
      · exact fun hmem => absurd (hflat _ hmem) (by decide)
    · exact ⟨[], rfl, .none⟩
  · exact ⟨[], rfl, .none⟩

/-- A projection is plain but for its own angle brackets and those around its arguments. -/
theorem afterProjection?_cases {cs rest : List Char} (h : afterProjection? cs = some rest) :
    ∃ front arguments gap,
      cs = '<' :: (front ++ (arguments ++ (gap ++ '>' :: ':' :: ':' :: rest))) ∧
      (∀ c ∈ front, IsPlain c) ∧ FlatArguments arguments ∧ ∀ c ∈ gap, IsPlain c := by
  simp only [afterProjection?, Option.bind_eq_bind, Option.bind_eq_some_iff] at h
  obtain ⟨c₁, h₁, c₂, h₂, c₃, h₃, c₄, h₄, c₅, h₅, c₆, h₆, h₇⟩ := h
  obtain ⟨blanks, hblanks, hb⟩ := exists_of_dropWhile_isBlank c₁
  obtain ⟨self, hself, hs⟩ := exists_of_afterSome? (fun _ => isPlain_of_isPathChar) h₂
  obtain ⟨before, hbefore, hbf⟩ := exists_of_afterSome? (fun _ => isPlain_of_isBlank) h₃
  obtain ⟨behind, hbehind, hbh⟩ := exists_of_afterSome? (fun _ => isPlain_of_isBlank) h₅
  obtain ⟨trait, htrait, ht⟩ := exists_of_afterSome? (fun _ => isPlain_of_isPathChar) h₆
  obtain ⟨arguments, harguments, hflat⟩ := exists_of_afterArguments c₆
  obtain ⟨gap, hgap, hg⟩ := exists_of_dropWhile_isBlank (afterArguments c₆)
  refine ⟨blanks ++ self ++ before ++ ['a', 's'] ++ behind ++ trait, arguments, gap, ?_, ?_, hflat,
    hg⟩
  · rw [after?_eq h₁, hblanks, hself, hbefore, after?_eq h₄, hbehind, htrait, harguments, hgap,
      after?_eq h₇]
    simp
  · have has : ∀ c ∈ ['a', 's'], IsPlain c := by
      intro c hc
      simp only [List.mem_cons, List.not_mem_nil, or_false] at hc
      rcases hc with rfl | rfl <;> exact ⟨rfl, rfl⟩
    simp only [List.forall_mem_append]
    exact ⟨⟨⟨⟨⟨hb, hs⟩, hbf⟩, has⟩, hbh⟩, ht⟩

/-! ## What each pass makes of balanced text -/

/-- Plain text leaves the stack as it is. -/
theorem closes_append_of_isPlain {front : List Char} (h : ∀ c ∈ front, IsPlain c)
    (pending rest : List Char) : closes pending (front ++ rest) = closes pending rest :=
  closes_append_of_nested (nested_of_isBalanced (isBalanced_of_forall_isPlain h)) pending rest

/-- A rule that makes no fault at a piece if none is made behind it. -/
def Rule.MakesNoFault (r : Rule) : Prop :=
  ∀ {inWord : Bool} {cs new rest out : List Char}, r.find? inWord cs = some (new, rest) →
    byKind.Survives out rest → byKind.Survives (new ++ out) cs

theorem Rule.MakesNoFault.survives {r : Rule} (hr : r.MakesNoFault) (cs : List Char) :
    byKind.Survives (r.apply cs) cs := by
  refine Rule.apply_cases (r := r)
    (P := fun inWord cs => byKind.Survives (r.applyFrom inWord cs) cs)
    ?nil ?replaced ?kept false cs
  case nil =>
    intro inWord
    rw [Rule.applyFrom_nil]
    exact .refl []
  case replaced =>
    intro inWord cs new rest hfind ih
    rw [Rule.applyFrom_of_some hfind]
    exact hr hfind ih
  case kept =>
    intro inWord c cs hfind ih
    rw [Rule.applyFrom_of_none hfind]
    exact ih.cons c

/-- A rule that takes out and puts in balanced pieces makes no fault. -/
theorem Rule.IsTidy.survives_of {r : Rule} (hr : r.IsTidy) (cs : List Char) :
    byKind.Survives (r.apply cs) cs := by
  refine Rule.MakesNoFault.survives ?_ cs
  intro inWord cs new rest out hfind hout
  obtain ⟨piece, rfl, hpiece, hnew⟩ := hr hfind
  exact hout.replace hnew hpiece

theorem makesNoFault_projection : projection.MakesNoFault := by
  intro inWord cs new rest out hfind hout pending haccepts
  obtain ⟨tail, hprojection, heq⟩ := Option.map_eq_some_iff.1 hfind
  obtain ⟨rfl, rfl⟩ := Prod.mk.inj heq
  obtain ⟨front, arguments, gap, rfl, hfront, hflat, hgap⟩ := afterProjection?_cases hprojection
  refine hout pending ?_
  -- the last angle bracket closes the first one, which is all that is pending in front of it
  have hlast : closes ('>' :: pending) (gap ++ '>' :: ':' :: ':' :: tail) = true →
      closes pending tail = true := by
    intro h
    rwa [closes_append_of_isPlain hgap, closes_closer _ _ rfl rfl, closes_plain _ _ rfl rfl,
      closes_plain _ _ rfl rfl] at h
  have hfirst : closes ('>' :: pending)
      (arguments ++ (gap ++ '>' :: ':' :: ':' :: tail)) = true := by
    rw [← closes_append_of_isPlain hfront, ← closes_opener (c := '<') _ _ rfl]
    exact haccepts
  cases hflat with
  | none => exact hlast hfirst
  | some hopen hclose =>
    rw [List.cons_append, List.append_assoc, List.singleton_append,
      closes_opener (k := '>') _ _ rfl] at hfirst
    exact hlast (isBalanced_of_apart (o := '<') rfl hopen hclose hfirst).2

theorem makesNoFault_oneElement : oneElement.MakesNoFault := by
  intro inWord cs element rest out hfind hout pending haccepts
  have hfound : oneElement? cs = some (element, rest) := hfind
  have helement := forall_mem_of_oneElement? hfound
  obtain ⟨rfl, -⟩ := oneElement?_eq hfound
  have haccepts : closes (')' :: pending) (element ++ ')' :: rest) = true := by
    rw [← closes_opener (c := '(') _ _ rfl]
    exact haccepts
  obtain ⟨hbalanced, hrest⟩ := isBalanced_of_apart (o := '(') rfl
    (fun hmem => absurd (helement _ hmem) (by decide))
    (fun hmem => absurd (helement _ hmem) (by decide)) haccepts
  show closes pending (element ++ out) = true
  rw [closes_append_of_nested (nested_of_isBalanced hbalanced)]
  exact hout pending hrest

theorem survives_of_filter_isBlank (cs : List Char) :
    byKind.Survives (cs.filter (!isBlank ·)) cs := by
  induction cs with
  | nil => exact .refl []
  | cons c cs ih =>
    by_cases hc : isBlank c = true
    · rw [List.filter_cons_of_neg (by simp [hc])]
      have hblank : isBalanced [c] = true :=
        isBalanced_of_forall_isPlain (by simpa using isPlain_of_isBlank hc)
      have hnil : isBalanced [] = true := rfl
      exact ih.replace hnil hblank
    · rw [List.filter_cons_of_pos (by simp [hc])]
      exact ih.cons c

theorem survives_of_unbox (cs : List Char) : byKind.Survives (unbox cs) cs := by
  fun_induction unbox cs with
  | case1 cs new hdrop ih =>
    obtain ⟨before, inside, after, k, rfl, rfl, -, henclosed⟩ := dropBox?_cases hdrop
    refine ih.trans (Check.Survives.append before ?_)
    intro pending haccepts
    have haccepts : closes ([] ++ '>' :: pending) (inside ++ k :: after) = true := by
      rw [List.nil_append, ← closes_opener (c := '<') _ _ rfl,
        ← closes_plain (c := 'x') _ _ rfl rfl, ← closes_plain (c := 'o') _ _ rfl rfl,
        ← closes_plain (c := 'B') _ _ rfl rfl]
      exact haccepts
    obtain ⟨front, rest, heq, hfront, hrest⟩ := exists_of_closes_append haccepts
    -- the matcher stops where the stack closes the bracket
    rw [heq, enclosed_of_nested (nested_of_isBalanced hfront) rfl rfl] at henclosed
    obtain ⟨rfl, rfl⟩ := Prod.mk.inj (Option.some.inj henclosed)
    show closes pending (front ++ rest) = true
    rwa [closes_append_of_nested (nested_of_isBalanced hfront)]
  | case2 => exact .refl _

theorem survives_of_flatten (cs : List Char) : byKind.Survives (flatten cs) cs := by
  fun_induction flatten cs with
  | case1 cs once _ ih => exact ih.trans (makesNoFault_oneElement.survives cs)
  | case2 cs once _ => exact makesNoFault_oneElement.survives cs

/-- The normal spelling has no fault that the text has not. -/
theorem survives_of_normalize (text : List Char) : byKind.Survives (normalize text) text :=
  (survives_of_flatten _).trans <| (isTidy_bytesAlias.survives_of _).trans <|
    (isTidy_textAlias.survives_of _).trans <| (survives_of_unbox _).trans <|
    (survives_of_filter_isBlank _).trans <| (isTidy_reference.survives_of _).trans <|
    (isTidy_path.survives_of _).trans (makesNoFault_projection.survives text)

theorem isBalanced_normalize {text : List Char} (h : isBalanced text = true) :
    isBalanced (normalize text) = true :=
  survives_of_normalize text [] h

end Spelling

end ChainTypings
