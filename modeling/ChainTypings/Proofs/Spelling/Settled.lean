import ChainTypings.Proofs.Spelling.Characters
import ChainTypings.Proofs.Spelling.Parentheses
import ChainTypings.Proofs.Spelling.Pieces
import Mathlib.Logic.Function.Iterate

/-!
# Settled spellings

The normal spelling of a text need not be its own normal spelling: every pass is made once, and
what a later pass brings together an earlier one no longer sees. A spelling is `Settled` if it
shows nothing that a pass behind blanks and references would still take: no path, no word for text,
no sequence of bytes, and no box whose bracket closes. These are the normal spellings that stay as
they are (`normalize_normalize_iff`).

Every pass takes from the excess of a text or leaves the text as it is (`Lowers`), so that texts
settle after at most as many rounds as they have excess.
-/

namespace ChainTypings.Spelling

open Text

/-! ## Excess -/

/-- What the passes may still take on account of a character. -/
def surplus (c : Char) : Nat :=
  -- the words for text are counted by their first letter, which stands in `Bytes` too; the brackets
  -- that `Bytes` takes the place of must therefore count for more
  if c = '<' || c = '[' then 2
  else if c = '(' || c = ':' || c = '&' || c = 's' || c = 'S' || isBlank c then 1
  else 0

/-- What the passes may still take from a text. -/
def excess : List Char → Nat
  | [] => 0
  | c :: cs => surplus c + excess cs

@[simp] theorem excess_nil : excess [] = 0 := rfl

@[simp] theorem excess_cons (c : Char) (cs : List Char) :
    excess (c :: cs) = surplus c + excess cs := rfl

@[simp] theorem excess_append (cs ds : List Char) : excess (cs ++ ds) = excess cs + excess ds := by
  induction cs with
  | nil => simp
  | cons c cs ih => rw [List.cons_append, excess_cons, excess_cons, ih, Nat.add_assoc]

theorem excess_le_of_sublist {cs ds : List Char} (h : cs.Sublist ds) : excess cs ≤ excess ds := by
  induction h with
  | slnil => exact Nat.le_refl _
  | cons c _ ih => rw [excess_cons]; omega
  | cons_cons c _ ih => rw [excess_cons, excess_cons]; omega

theorem surplus_le_two (c : Char) : surplus c ≤ 2 := by
  unfold surplus
  split
  · exact Nat.le_refl _
  · split <;> omega

theorem excess_le (cs : List Char) : excess cs ≤ 2 * cs.length := by
  induction cs with
  | nil => exact Nat.le_refl _
  | cons c cs ih =>
    have hc := surplus_le_two c
    rw [excess_cons, List.length_cons]
    omega

/-- A text loses excess with a character that has some. -/
theorem excess_lt_of_sublist {c : Char} {cs ds : List Char} (h : (c :: cs).Sublist ds)
    (hc : surplus c ≠ 0) : excess cs < excess ds := by
  have hle := excess_le_of_sublist h
  rw [excess_cons] at hle
  omega

/-! ## Passes -/

/-- The pass leaves a text with the property as it is and takes from the excess of any other. -/
structure Lowers (f : List Char → List Char) (P : List Char → Prop) : Prop where
  keeps : ∀ {cs}, P cs → f cs = cs
  lowers : ∀ {cs}, ¬P cs → excess (f cs) < excess cs

namespace Lowers

variable {f g : List Char → List Char} {P Q : List Char → Prop}

theorem excess_le (h : Lowers f P) (cs : List Char) : excess (f cs) ≤ excess cs := by
  by_cases hcs : P cs
  · rw [h.keeps hcs]
  · exact Nat.le_of_lt (h.lowers hcs)

theorem eq_self_iff (h : Lowers f P) {cs : List Char} : f cs = cs ↔ P cs := by
  refine ⟨fun heq => ?_, h.keeps⟩
  by_cases hcs : P cs
  · exact hcs
  · have hlt := h.lowers hcs
    rw [heq] at hlt
    exact absurd hlt (Nat.lt_irrefl _)

/-- Two passes, one after the other. -/
theorem comp (hf : Lowers f P) (hg : Lowers g Q) :
    Lowers (fun cs => g (f cs)) (fun cs => P cs ∧ Q cs) where
  keeps := by
    rintro cs ⟨hP, hQ⟩
    rw [hf.keeps hP, hg.keeps hQ]
  lowers := by
    intro cs hnot
    by_cases hP : P cs
    · rw [hf.keeps hP]
      exact hg.lowers fun hQ => hnot ⟨hP, hQ⟩
    · exact Nat.lt_of_le_of_lt (hg.excess_le (f cs)) (hf.lowers hP)

/-- After no more rounds than the text has excess, nothing is left to take. -/
theorem exists_iterate (h : Lowers f P) (cs : List Char) : ∃ n ≤ excess cs, P (f^[n] cs) := by
  induction hn : excess cs using Nat.strongRecOn generalizing cs with
  | ind n ih =>
    by_cases hcs : P cs
    · exact ⟨0, Nat.zero_le _, hcs⟩
    · have hlt := hn ▸ h.lowers hcs
      obtain ⟨k, hk, hP⟩ := ih _ hlt (f cs) rfl
      exact ⟨k + 1, Nat.lt_of_le_of_lt hk hlt, hP⟩

end Lowers

/-! ## Rules -/

/-- What the rule puts in the place of a piece has less excess than the piece. -/
def Rule.Lessens (r : Rule) : Prop :=
  ∀ {inWord : Bool} {cs new rest : List Char},
    r.find? inWord cs = some (new, rest) → excess new + excess rest < excess cs

theorem Rule.Lessens.lowers {r : Rule} (hr : r.Lessens) :
    Lowers r.apply (r.FindsNothing false) where
  keeps h := h.applyFrom_eq
  lowers := by
    -- on the run it is either: what is left of the text may show no piece although the text does
    have key : ∀ inWord cs, r.FindsNothing inWord cs ∨
        excess (r.applyFrom inWord cs) < excess cs := by
      refine Rule.apply_cases (r := r) ?nil ?replaced ?kept
      case nil => exact fun inWord => .inl (r.findsNothing_nil inWord)
      case replaced =>
        intro inWord cs new rest hfind ih
        have hle : excess (r.applyFrom false rest) ≤ excess rest := by
          rcases ih with ih | ih
          · rw [ih.applyFrom_eq]
          · exact Nat.le_of_lt ih
        have hlt := hr hfind
        right
        rw [Rule.applyFrom_of_some hfind, excess_append]
        omega
      case kept =>
        intro inWord c cs hfind ih
        rw [Rule.findsNothing_cons, Rule.applyFrom_of_none hfind, excess_cons, excess_cons]
        exact ih.imp (fun h => ⟨hfind, h⟩) fun h => Nat.add_lt_add_left h _
    exact fun {cs} hnot => (key false cs).resolve_left hnot

/-- A rule that removes a piece with a character that has excess. -/
theorem lessens_removal {find? : Bool → List Char → Option (List Char)}
    {shorter : ∀ {inWord : Bool} {cs rest : List Char},
      find? inWord cs = some rest → rest.length < cs.length} {c : Char} (hc : surplus c ≠ 0)
    (hsublist : ∀ {inWord cs rest}, find? inWord cs = some rest → (c :: rest).Sublist cs) :
    (removal find? shorter).Lessens := by
  intro inWord cs new rest hfind
  obtain ⟨_, hrest, heq⟩ := Option.map_eq_some_iff.1 hfind
  obtain ⟨rfl, rfl⟩ := Prod.mk.inj heq
  rw [excess_nil, Nat.zero_add]
  exact excess_lt_of_sublist (hsublist hrest) hc

theorem lessens_projection : projection.Lessens := by
  refine lessens_removal (c := ':') (by decide) fun h => ?_
  exact ((List.sublist_cons_self ':' _).trans (List.sublist_cons_self '>' _)).trans
    (suffix_of_afterProjection? h).sublist

theorem lessens_path : path.Lessens := by
  refine lessens_removal (c := ':') (by decide) fun {inWord cs rest} h => ?_
  unfold afterSegment? at h
  split at h
  · next c cs =>
    split at h
    · have hcolons : ':' :: ':' :: rest = cs.dropWhile isWordChar := (after?_eq h).symm
      have hsublist : (':' :: ':' :: rest).Sublist (c :: cs) :=
        hcolons ▸ (List.dropWhile_sublist _).trans (List.sublist_cons_self c cs)
      exact (List.sublist_cons_self ':' _).trans hsublist
    · cases h
  · cases h

theorem lessens_reference : reference.Lessens := by
  refine lessens_removal (c := '&') (by decide) fun {inWord cs rest} h => ?_
  obtain ⟨inside, hinside, rfl⟩ := Option.map_eq_some_iff.1 h
  obtain rfl : cs = '&' :: inside := after?_eq hinside
  exact ((List.dropWhile_sublist _).trans (afterLifetime_sublist inside)).cons_cons '&'

theorem lessens_textAlias : textAlias.Lessens := by
  intro inWord cs new rest hfind
  unfold textAlias textWord? at hfind
  dsimp only at hfind
  split at hfind
  · cases hfind
  · split at hfind
    · next hword =>
      obtain ⟨rfl, rfl⟩ := Prod.mk.inj (Option.some.inj hfind)
      have hcut := congrArg excess (List.takeWhile_append_dropWhile (p := isWordChar) (l := cs))
      have hnew : excess ['T', 'e', 'x', 't'] = 0 := by decide
      have hold : 0 < excess (cs.takeWhile isWordChar) := by
        rcases hword with hword | hword <;> rw [hword] <;> decide
      rw [excess_append] at hcut
      omega
    · cases hfind

theorem lessens_bytesAlias : bytesAlias.Lessens := by
  intro inWord cs new rest hfind
  unfold bytesAlias byteSequence? at hfind
  dsimp only at hfind
  split at hfind
  · cases hfind
  · obtain ⟨_, hrest, heq⟩ := Option.map_eq_some_iff.1 hfind
    obtain ⟨rfl, rfl⟩ := Prod.mk.inj heq
    obtain ⟨piece, hpiece, hrest⟩ := List.exists_of_findSome?_eq_some hrest
    have hlt : ∀ piece ∈ [['V', 'e', 'c', '<', 'u', '8', '>'], ['[', 'u', '8', ']']],
        excess ['B', 'y', 't', 'e', 's'] < excess piece := by decide
    have := hlt piece hpiece
    rw [after?_eq hrest, excess_append]
    omega

theorem lessens_oneElement : oneElement.Lessens := by
  intro inWord cs new rest hfind
  have hopen : surplus '(' = 1 := by decide
  rw [(oneElement?_eq hfind).1]
  simp only [excess_append, excess_cons, hopen]
  omega

/-! ## The passes that are no rules -/

theorem lowers_filter :
    Lowers (fun cs => cs.filter (!isBlank ·)) (fun cs => ∀ c ∈ cs, isBlank c = false) where
  keeps h := List.filter_eq_self.2 (by simpa using h)
  lowers := by
    intro cs hnot
    induction cs with
    | nil => exact absurd (by simp) hnot
    | cons c cs ih =>
      cases hc : isBlank c with
      | true =>
        have hone : surplus c ≠ 0 := by
          simp only [surplus, hc, Bool.or_true, if_true]
          split <;> decide
        rw [List.filter_cons_of_neg (by simp [hc])]
        exact excess_lt_of_sublist (List.filter_sublist.cons_cons c) hone
      | false =>
        rw [List.filter_cons_of_pos (by simp [hc]), excess_cons, excess_cons]
        refine Nat.add_lt_add_left (ih fun h => hnot ?_) _
        exact List.forall_mem_cons.2 ⟨hc, h⟩

theorem lowers_unbox : Lowers unbox (fun cs => dropBox? cs = none) where
  keeps := by
    intro cs hnone
    rw [unbox]
    split
    · next hsome => rw [hnone] at hsome; cases hsome
    · rfl
  lowers := by
    have hdrop : ∀ {cs new}, dropBox? cs = some new → excess new < excess cs := by
      intro cs new hdrop
      obtain ⟨before, inside, after, k, rfl, rfl⟩ := dropBox?_eq hdrop
      have hopen : surplus '<' = 2 := by decide
      simp only [excess_append, excess_cons, hopen]
      omega
    have hle : ∀ cs, excess (unbox cs) ≤ excess cs := by
      intro cs
      fun_induction unbox cs with
      | case1 cs new hsome ih => exact Nat.le_of_lt (Nat.lt_of_le_of_lt ih (hdrop hsome))
      | case2 => exact Nat.le_refl _
    intro cs hnot
    obtain ⟨new, hsome⟩ := Option.ne_none_iff_exists'.1 hnot
    rw [unbox]
    split
    · next hsome => exact Nat.lt_of_le_of_lt (hle _) (hdrop hsome)
    · next hnone => exact absurd hnone hnot

/-- After the last round no parentheses are left to drop. -/
theorem oneElement_apply_flatten (cs : List Char) :
    oneElement.apply (flatten cs) = flatten cs := by
  fun_induction flatten cs with
  | case1 cs once _ ih => exact ih
  | case2 cs once hkept =>
    have hsame : once = cs := oneElement_apply_eq_self hkept
    rw [hsame]
    exact hsame

theorem lowers_flatten : Lowers flatten (oneElement.FindsNothing false) where
  keeps := by
    intro cs h
    have hround : oneElement.apply cs = cs := h.applyFrom_eq
    rw [flatten, hround]
    exact if_neg (Nat.lt_irrefl _)
  lowers := by
    intro cs hnot
    have hround := lessens_oneElement.lowers.lowers hnot
    have hle : ∀ cs, excess (flatten cs) ≤ excess cs := by
      intro cs
      fun_induction flatten cs with
      | case1 cs once _ ih => exact Nat.le_trans ih (lessens_oneElement.lowers.excess_le cs)
      | case2 cs once _ => exact lessens_oneElement.lowers.excess_le cs
    rw [flatten]
    split
    · exact Nat.lt_of_le_of_lt (hle _) hround
    · exact hround

/-! ## The normal spelling -/

/-- All passes, and when they leave a text as it is. -/
theorem lowers_normalize : Lowers normalize fun cs =>
    ((((((projection.FindsNothing false cs ∧ path.FindsNothing false cs) ∧
      reference.FindsNothing false cs) ∧ ∀ c ∈ cs, isBlank c = false) ∧ dropBox? cs = none) ∧
      textAlias.FindsNothing false cs) ∧ bytesAlias.FindsNothing false cs) ∧
      oneElement.FindsNothing false cs :=
  ((((((lessens_projection.lowers.comp lessens_path.lowers).comp lessens_reference.lowers).comp
    lowers_filter).comp lowers_unbox).comp lessens_textAlias.lowers).comp
    lessens_bytesAlias.lowers).comp lowers_flatten

/-- Nothing is left of references. -/
theorem forall_reference_apply (cs : List Char) : ∀ c ∈ reference.apply cs, c ≠ '&' := by
  refine Rule.apply_cases (r := reference)
    (P := fun inWord cs => ∀ c ∈ reference.applyFrom inWord cs, c ≠ '&') ?nil ?replaced ?kept
    false cs
  case nil =>
    intro inWord
    rw [Rule.applyFrom_nil]
    exact List.forall_mem_nil _
  case replaced =>
    intro inWord cs new rest hfind ih
    obtain ⟨_, -, heq⟩ := Option.map_eq_some_iff.1 hfind
    obtain ⟨rfl, rfl⟩ := Prod.mk.inj heq
    rwa [Rule.applyFrom_of_some hfind, List.nil_append]
  case kept =>
    intro inWord c cs hfind ih
    rw [Rule.applyFrom_of_none hfind]
    refine List.forall_mem_cons.2 ⟨?_, ih⟩
    rintro rfl
    cases hfind

/-- A normal spelling holds neither references nor blanks. -/
theorem forall_plain_normalize (cs : List Char) :
    ∀ c ∈ normalize cs, c ≠ '&' ∧ isBlank c = false := by
  have hnames : "TextBytes".toList.all (fun c => decide (c ≠ '&' ∧ isBlank c = false)) = true := by
    decide
  refine forall_tidy (fun c hc => of_decide_eq_true (List.all_eq_true.1 hnames c hc)) fun c hc => ?_
  obtain ⟨hc, hblank⟩ := List.mem_filter.1 hc
  exact ⟨forall_reference_apply _ c hc, by simpa using hblank⟩

theorem projection_findsNothing {cs : List Char} (h : ∀ c ∈ cs, isBlank c = false) :
    projection.FindsNothing false cs := by
  rintro before after rfl
  -- the brackets of a projection hold blanks
  cases hfind : afterProjection? after with
  | none => simp [projection, removal, hfind]
  | some rest =>
    simp only [afterProjection?, Option.bind_eq_bind, Option.bind_eq_some_iff] at hfind
    obtain ⟨c₁, h₁, c₂, h₂, c₃, h₃, -⟩ := hfind
    obtain ⟨blank, run, rfl, hrun⟩ := afterSome?_eq h₃
    have hsublist : (blank :: run ++ c₃).Sublist after :=
      (afterSome?_sublist h₂).trans ((List.dropWhile_sublist _).trans (after?_sublist h₁))
    have hmem : blank ∈ before ++ after :=
      List.mem_append_right _ (hsublist.subset List.mem_cons_self)
    have hblank := h blank hmem
    rw [hrun blank List.mem_cons_self] at hblank
    cases hblank

theorem reference_findsNothing {cs : List Char} (h : ∀ c ∈ cs, c ≠ '&') :
    reference.FindsNothing false cs := by
  rintro before after rfl
  cases after with
  | nil => exact reference.find?_nil _
  | cons c after =>
    have hc : '&' ≠ c := (h c (by simp)).symm
    simp [reference, removal, afterReference?, after?, hc]

/-- A spelling that shows no path, no word for text, no sequence of bytes, and no box whose bracket
closes. -/
structure Settled (cs : List Char) : Prop where
  path : ¬Shows StartsWithSegment cs
  text : ¬Shows StartsWithText cs
  bytes : ¬Shows StartsWithBytes cs
  box : ∀ before inside closer after,
    cs = before ++ ("Box<".toList ++ (inside ++ closer :: after)) →
    wordBehind false before = false → ¬Shows StartsWithBox before →
    Bracket.isOpener closer = false → Bracket.isCloser closer = true →
    Bracket.nests 0 inside = false

/-- A normal spelling is its own normal spelling if and only if it is settled. -/
theorem normalize_normalize_iff (cs : List Char) :
    normalize (normalize cs) = normalize cs ↔ Settled (normalize cs) := by
  have hplain := forall_plain_normalize cs
  have hblank : ∀ c ∈ normalize cs, isBlank c = false := fun c hc => (hplain c hc).2
  have hprojection := projection_findsNothing hblank
  have hreference := reference_findsNothing fun c hc => (hplain c hc).1
  have hflat : oneElement.FindsNothing false (normalize cs) :=
    lessens_oneElement.lowers.eq_self_iff.1 (oneElement_apply_flatten _)
  -- half of what a second round could take the first one has taken for good
  rw [lowers_normalize.eq_self_iff, path_findsNothing_iff, textAlias_findsNothing_iff,
    bytesAlias_findsNothing_iff, dropBox?_eq_none_iff]
  constructor
  · rintro ⟨⟨⟨⟨⟨⟨⟨-, hpath⟩, -⟩, -⟩, hbox⟩, htext⟩, hbytes⟩, -⟩
    exact ⟨hpath, htext, hbytes, hbox⟩
  · rintro ⟨hpath, htext, hbytes, hbox⟩
    exact ⟨⟨⟨⟨⟨⟨⟨hprojection, hpath⟩, hreference⟩, hblank⟩, hbox⟩, htext⟩, hbytes⟩, hflat⟩

/-! ## Types as source code writes them -/

/-- The normal spelling of a type as source code writes it stays as it is. -/
theorem Decorated.normalize_normalize_print (d : Decorated) :
    normalize (normalize d.print) = normalize d.print := by
  have hproper : d.strip.aliased.Proper := d.proper_strip.renamed.packed
  rw [d.proper_strip.normalize_of_unbox d.unbox_uncover_print,
    hproper.normalize_of_filter (Phrase.filter_print _), Phrase.aliased_aliased]

/-! ## When spellings settle -/

/-- The normal spelling of a text is its own normal spelling if and only if it is settled, and that
of a type as source code writes it is settled. Any other text settles after no more rounds than
twice its length, and stays as it is then. -/
theorem normalize_settles (cs : List Char) :
    (normalize (normalize cs) = normalize cs ↔ Settled (normalize cs)) ∧
    (∀ d : Decorated, cs = d.print → Settled (normalize cs)) ∧
    ∃ n ≤ 2 * cs.length, Settled (normalize^[n] cs) ∧
      ∀ k, normalize^[n + k] cs = normalize^[n] cs := by
  refine ⟨normalize_normalize_iff cs, ?_, ?_⟩
  · rintro d rfl
    exact (normalize_normalize_iff _).1 d.normalize_normalize_print
  · obtain ⟨n, hn, hleft⟩ := lowers_normalize.exists_iterate cs
    have hfixed : normalize (normalize^[n] cs) = normalize^[n] cs := lowers_normalize.keeps hleft
    refine ⟨n, Nat.le_trans hn (excess_le cs), ?_, fun k => ?_⟩
    · rw [← hfixed]
      exact (normalize_normalize_iff _).1 (by rw [hfixed, hfixed])
    · rw [Nat.add_comm, Function.iterate_add_apply]
      exact Function.iterate_fixed hfixed k

/-- A blank may hide a path, and so may a box, and parentheses may hide a sequence of bytes. -/
theorem normal_normal_ne :
    normal (normal "T ::Balance") ≠ normal "T ::Balance" ∧
    normal (normal "Box<T>::Balance") ≠ normal "Box<T>::Balance" ∧
    normal (normal "Vec<(u8)>") ≠ normal "Vec<(u8)>" := by
  decide +kernel

end ChainTypings.Spelling
