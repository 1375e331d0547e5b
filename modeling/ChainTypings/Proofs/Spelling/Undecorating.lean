import ChainTypings.Proofs.Spelling.Cut
import ChainTypings.Proofs.Spelling.Decorated
import Mathlib.Data.List.Chain
import Mathlib.Data.List.TakeWhile

/-!
# Removing projections, paths, references and blanks

The first passes of the normal spelling on a decorated text. A decorated text holds no projection;
the path rule removes exactly the paths (`path_apply_print`); the reference rule and the removal
of blanks together leave the phrase with its boxes still in place (`uncover_print`).
-/

namespace ChainTypings.Spelling

open Text

namespace Decorated

mutual

/-- The text without paths. -/
def unpathed : Decorated → Decorated
  | name _ w => name [] w
  | unit => unit
  | tuple a b ds => tuple (unpathed a) (unpathed b) (unpathedEach ds)
  | array d b n => array (unpathed d) b n
  | slice d => slice (unpathed d)
  | generic _ h hb ds => generic [] h hb (unpathedEach ds)
  | box _ d => box [] (unpathed d)
  | reference d => reference (unpathed d)
  | lifetime l b h d => lifetime l b h (unpathed d)
  | spaced b d => spaced b (unpathed d)

/-- Several texts without paths. -/
def unpathedEach : List Decorated → List Decorated
  | [] => []
  | d :: ds => unpathed d :: unpathedEach ds

end

mutual

/-- The phrase without decorations other than boxes, each box being a generic type. -/
def boxed : Decorated → Phrase
  | name _ w => .name w
  | unit => .tuple []
  | tuple a b ds => .tuple (boxed a :: boxed b :: boxedEach ds)
  | array d _ n => .array (boxed d) n
  | slice d => .slice (boxed d)
  | generic _ h _ ds => .generic h (boxedEach ds)
  | box _ d => .generic .box [boxed d]
  | reference d => boxed d
  | lifetime _ _ _ d => boxed d
  | spaced _ d => boxed d

/-- Several phrases without decorations other than boxes. -/
def boxedEach : List Decorated → List Phrase
  | [] => []
  | d :: ds => boxed d :: boxedEach ds

end

theorem printEach_eq_map (ds : List Decorated) : printEach ds = ds.map print := by
  induction ds with
  | nil => rfl
  | cons d ds ih => rw [printEach, ih, List.map_cons]

theorem unpathedEach_eq_map (ds : List Decorated) : unpathedEach ds = ds.map unpathed := by
  induction ds with
  | nil => rfl
  | cons d ds ih => rw [unpathedEach, ih, List.map_cons]

theorem boxedEach_eq_map (ds : List Decorated) : boxedEach ds = ds.map boxed := by
  induction ds with
  | nil => rfl
  | cons d ds ih => rw [boxedEach, ih, List.map_cons]

theorem stripEach_eq_map (ds : List Decorated) : stripEach ds = ds.map strip := by
  induction ds with
  | nil => rfl
  | cons d ds ih => rw [stripEach, ih, List.map_cons]

end Decorated

/-! ## Projections -/

/-- Where a projection ends, a closing angle bracket stands right in front of a colon. -/
theorem suffix_of_afterProjection? {cs rest : List Char} (h : afterProjection? cs = some rest) :
    '>' :: ':' :: ':' :: rest <:+ cs := by
  simp only [afterProjection?, Option.bind_eq_bind, Option.bind_eq_some_iff] at h
  obtain ⟨c₁, h₁, c₂, h₂, c₃, h₃, c₄, h₄, c₅, h₅, c₆, h₆, h₇⟩ := h
  have after : ∀ {piece cs rest : List Char}, after? piece cs = some rest → rest <:+ cs := by
    intro piece cs rest h
    exact ⟨piece, (after?_eq h).symm⟩
  have some : ∀ {p cs rest}, afterSome? p cs = some rest → rest <:+ cs := by
    intro p cs rest h
    obtain ⟨c, run, he, -⟩ := afterSome?_eq h
    exact ⟨c :: run, he.symm⟩
  have arguments : afterArguments c₆ <:+ c₆ := by
    unfold afterArguments
    split
    · next inside =>
      split
      · next tail ht =>
        have := List.dropWhile_suffix (l := inside) fun c => !(c = '<' || c = '>')
        rw [ht] at this
        exact (List.suffix_cons _ _).trans (this.trans (List.suffix_cons _ _))
      · exact List.suffix_rfl
    · exact List.suffix_rfl
  have last : '>' :: ':' :: ':' :: rest <:+ (afterArguments c₆).dropWhile isBlank :=
    ⟨[], (after?_eq h₇).symm⟩
  exact last.trans <| (List.dropWhile_suffix _).trans <| arguments.trans <| (some h₆).trans <|
    (some h₅).trans <| (after h₄).trans <| (some h₃).trans <| (some h₂).trans <|
    (List.dropWhile_suffix _).trans (after h₁)

/-- Neighbours of which the first does not close an angle bracket in front of a colon. -/
def Apart (a b : Char) : Prop := ¬(a = '>' ∧ b = ':')

/-- Without a closing angle bracket right in front of a colon there is no projection. -/
theorem projection_apply_eq_self {cs : List Char} (h : cs.IsChain Apart) :
    projection.apply cs = cs := by
  refine Rule.applyFrom_eq_self (fun inWord ds hd => ?_) false
  cases hp : afterProjection? ds with
  | none => simp [projection, removal, hp]
  | some rest =>
    have hs := (suffix_of_afterProjection? hp).trans hd
    have : ['>', ':'] <:+: cs := by
      obtain ⟨front, rfl⟩ := hs
      exact ⟨front, ':' :: rest, by simp⟩
    have := h.infix this
    simp [Apart] at this

theorem isChain_apart_of_gt_not_mem {cs : List Char} (h : '>' ∉ cs) : cs.IsChain Apart := by
  induction cs with
  | nil => exact .nil
  | cons c cs ih =>
    simp only [List.mem_cons, not_or] at h
    exact List.isChain_cons.2 ⟨fun b _ hcb => h.1 hcb.1.symm, ih h.2⟩

/-- A text that goes on after any other without making a projection. -/
structure Quiet (cs : List Char) : Prop where
  chain : cs.IsChain Apart
  head : ∀ c ∈ cs.head?, c ≠ ':'

namespace Quiet

variable {cs ds : List Char}

theorem append (h : Quiet cs) (h' : Quiet ds) : Quiet (cs ++ ds) where
  chain := List.isChain_append.2 ⟨h.chain, h'.chain, fun _ _ b hb hab => h'.head b hb hab.2⟩
  head c hc := by
    cases cs with
    | nil => exact h'.head c hc
    | cons x xs => exact h.head c hc

theorem of_colon_not_mem (h : ':' ∉ cs := by decide) : Quiet cs where
  chain := by
    induction cs with
    | nil => exact .nil
    | cons c cs ih =>
      simp only [List.mem_cons, not_or] at h
      refine List.isChain_cons.2 ⟨fun b hb hcb => ?_, ih h.2⟩
      exact h.2 (hcb.2 ▸ List.mem_of_mem_head? hb)
  head c hc := by
    rintro rfl
    exact h (List.mem_of_mem_head? hc)

theorem cons {c : Char} (h : Quiet cs) (hc : c ≠ ':' := by decide) : Quiet (c :: cs) := by
  have hq : Quiet [c] := of_colon_not_mem (by simpa using Ne.symm hc)
  exact hq.append h

theorem of_forall_isWordChar (h : ∀ c ∈ cs, isWordChar c = true) : Quiet cs :=
  of_colon_not_mem (not_mem_of_isWordChar rfl h)

theorem intercalate {ps : List (List Char)} (h : ∀ p ∈ ps, Quiet p) :
    Quiet ([','].intercalate ps) := by
  induction ps with
  | nil => exact of_colon_not_mem (by simp)
  | cons p ps ih =>
    cases ps with
    | nil => simpa using h
    | cons q qs =>
      rw [List.intercalate_cons_cons, List.append_assoc]
      exact (h p (by simp)).append
        (cons (ih fun r hr => h r (List.mem_cons_of_mem _ hr)))

end Quiet

theorem isWordChar_of_isSegmentStart {c : Char} (h : isSegmentStart c = true) :
    isWordChar c = true := by
  simp only [isSegmentStart, Bool.or_eq_true, decide_eq_true_eq] at h
  refine isWordChar_of_isAsciiWordChar ?_
  rcases h with h | h
  · simp [isAsciiWordChar, Char.isAlphanum, h]
  · simp [isAsciiWordChar, h]

theorem Segment.isWordChar (s : Segment) : ∀ c ∈ s.first :: s.others, isWordChar c = true := by
  intro c hc
  rcases List.mem_cons.1 hc with rfl | hc
  · exact isWordChar_of_isSegmentStart s.start
  · exact isWordChar_of_isAsciiWordChar (s.ascii c hc)

theorem Blanks.colon_not_mem (b : Blanks) : ':' ∉ b.chars := by
  intro hm
  have := b.blank _ hm
  revert this
  decide

theorem quiet_pathChars (p : List Segment) : Quiet (pathChars p) := by
  induction p with
  | nil => exact .of_colon_not_mem (by simp [pathChars])
  | cons s p ih =>
    refine .append ⟨?_, ?_⟩ ih
    · refine isChain_apart_of_gt_not_mem ?_
      intro hm
      have hm : '>' ∈ s.first :: s.others ++ [':', ':'] := hm
      rcases List.mem_append.1 hm with hm | hm
      · exact not_mem_of_isWordChar rfl s.isWordChar hm
      · simp at hm
    · intro c hc
      obtain rfl : s.first = c := by simpa using hc
      exact ne_of_isWordChar (s.isWordChar _ (by simp)) rfl

namespace Decorated

theorem quiet_print (d : Decorated) : Quiet d.print := by
  induction d with
  | name p w => exact (quiet_pathChars p).append (.of_forall_isWordChar w.isWordChar)
  | unit => exact .of_colon_not_mem
  | tuple a b ds iha ihb ih =>
    refine .cons (.append (.intercalate ?_) .of_colon_not_mem)
    simpa [printEach_eq_map] using ⟨iha, ihb, ih⟩
  | array d b n ih =>
    refine .cons (ih.append (.cons (.append (.append ?_ ?_) ?_)))
    · exact .of_colon_not_mem b.colon_not_mem
    · exact .of_forall_isWordChar n.word.isWordChar
    · exact .of_colon_not_mem
  | slice d ih => exact .cons (ih.append .of_colon_not_mem)
  | generic p h hb ds ih =>
    refine .append (.append (quiet_pathChars p) (.of_forall_isWordChar h.isWordChar)) ?_
    refine .cons (.append (.intercalate ?_) .of_colon_not_mem)
    simpa [printEach_eq_map] using ih
  | box p d ih =>
    refine .append (.append (quiet_pathChars p) (.of_forall_isWordChar AsciiWord.box.isWordChar)) ?_
    exact .cons (ih.append .of_colon_not_mem)
  | reference d ih => exact .cons ih
  | lifetime l b h d ih =>
    refine .cons (.cons (.append (.append ?_ ?_) ih))
    · exact .of_forall_isWordChar l.word
    · exact .of_colon_not_mem b.colon_not_mem
  | spaced b d ih =>
    exact .append (.of_colon_not_mem b.colon_not_mem) ih

end Decorated

/-! ## Paths -/

theorem path_splitsAt {c : Char} (hc : isWordChar c = false) (hc' : c ≠ ':') :
    SplitsAt c path.apply :=
  (path_cuts hc hc').splitsAt

/-- Without two colons in a row there is no path. -/
theorem path_apply_eq_self_of_chain {cs : List Char}
    (h : cs.IsChain fun a b => ¬(a = ':' ∧ b = ':')) : path.apply cs = cs := by
  refine Rule.applyFrom_eq_self (fun inWord ds hd => ?_) false
  cases ds with
  | nil => exact path.find?_nil inWord
  | cons d ds =>
    have hnone : after? [':', ':'] (ds.dropWhile isWordChar) = none := by
      cases ha : after? [':', ':'] (ds.dropWhile isWordChar) with
      | none => rfl
      | some rest =>
        have hsuffix : ':' :: ':' :: rest <:+ cs := by
          have htail := (List.dropWhile_suffix (l := ds) isWordChar).trans
            ((List.suffix_cons d ds).trans hd)
          rwa [after?_eq ha] at htail
        have hinfix : [':', ':'] <:+: cs := by
          obtain ⟨front, rfl⟩ := hsuffix
          exact ⟨front, rest, by simp⟩
        have := h.infix hinfix
        simp at this
    simp [path, removal, afterSegment?, hnone]

/-- Without a colon there is no path. -/
theorem path_apply_eq_self {cs : List Char} (h : ':' ∉ cs) : path.apply cs = cs := by
  refine path_apply_eq_self_of_chain (List.Pairwise.isChain ?_)
  refine List.pairwise_of_forall_mem_list ?_
  rintro a ha b - ⟨rfl, -⟩
  exact h ha

theorem path_apply_word {w : List Char} (h : ∀ c ∈ w, isWordChar c = true) : path.apply w = w :=
  path_apply_eq_self (not_mem_of_isWordChar rfl h)

/-- The path rule removes a segment. -/
theorem path_apply_segment (s : Segment) (rest : List Char) :
    path.apply (s.first :: (s.others ++ ':' :: ':' :: rest)) = path.apply rest := by
  have hs : afterSegment? false (s.first :: (s.others ++ ':' :: ':' :: rest)) = some rest := by
    have := dropWhile_append_cons (p := isWordChar) (c := ':') rfl s.others (':' :: rest)
    rw [List.dropWhile_eq_nil_iff.2 fun c hc => s.isWordChar c (List.mem_cons_of_mem _ hc)] at this
    simp [afterSegment?, s.start, this, after?]
  have hf : path.find? false (s.first :: (s.others ++ ':' :: ':' :: rest)) = some ([], rest) := by
    simp [path, removal, hs]
  rw [Rule.apply, Rule.applyFrom_of_some hf]
  rfl

theorem path_apply_pathChars (p : List Segment) (rest : List Char) :
    path.apply (pathChars p ++ rest) = path.apply rest := by
  induction p with
  | nil => rfl
  | cons s p ih =>
    have : pathChars (s :: p) ++ rest =
        s.first :: (s.others ++ ':' :: ':' :: (pathChars p ++ rest)) := by
      simp [pathChars]
    rw [this, path_apply_segment, ih]

theorem path_apply_blanks (b : Blanks) (rest : List Char) :
    path.apply (b.chars ++ rest) = b.chars ++ path.apply rest := by
  obtain ⟨bs, hb⟩ := b
  induction bs with
  | nil => rfl
  | cons c bs ih =>
    simp only [List.mem_cons, forall_eq_or_imp] at hb
    have hc : c ≠ ':' := by rintro rfl; exact absurd hb.1 (by decide)
    rw [List.cons_append,
      (path_splitsAt (isWordChar_eq_false_of_isBlank hb.1) hc).cons path.apply_nil, ih hb.2,
      List.cons_append]

/-- The blanks after a lifetime keep its word apart from a path. -/
theorem path_apply_lifetime (l : Lifetime) (b : Blanks) (h : b.chars ≠ []) (rest : List Char) :
    path.apply (l.chars ++ b.chars ++ rest) = l.chars ++ b.chars ++ path.apply rest := by
  obtain ⟨bs, hb⟩ := b
  cases bs with
  | nil => exact absurd rfl h
  | cons c bs =>
    have hc : c ≠ ':' := by rintro rfl; exact absurd (hb ':' (by simp)) (by decide)
    -- the first blank cuts the text, so the word of the lifetime is on its own
    have hs := path_splitsAt (isWordChar_eq_false_of_isBlank (hb c (by simp))) hc
    have htail := path_apply_blanks ⟨bs, fun d hd => hb d (by simp [hd])⟩ rest
    rw [List.append_assoc, List.cons_append, hs, path_apply_word l.word, htail]
    simp

section

variable {c : Char} (hc : isMark c = true) (hc' : c ≠ ':')

include hc hc'

theorem path_apply_mark (ys : List Char) : path.apply (c :: ys) = c :: path.apply ys :=
  (path_splitsAt (isWordChar_eq_false_of_isMark hc) hc').cons path.apply_nil ys

theorem path_apply_append_mark (xs ys : List Char) :
    path.apply (xs ++ c :: ys) = path.apply xs ++ c :: path.apply ys :=
  path_splitsAt (isWordChar_eq_false_of_isMark hc) hc' xs ys

theorem path_apply_intercalate (ps : List (List Char)) :
    path.apply ([c].intercalate ps) = [c].intercalate (ps.map path.apply) :=
  (path_splitsAt (isWordChar_eq_false_of_isMark hc) hc').intercalate path.apply_nil ps

end

namespace Decorated

/-- The path rule removes the paths. -/
theorem path_apply_print (d : Decorated) : path.apply d.print = d.unpathed.print := by
  induction d with
  | name p w =>
    rw [print, path_apply_pathChars, path_apply_word w.isWordChar]
    rfl
  | unit =>
    simp (disch := decide) only [print, path_apply_mark, Rule.apply_nil, unpathed]
  | tuple a b ds iha ihb ih =>
    have ih : ds.map (path.apply ∘ print) = ds.map (print ∘ unpathed) := List.map_congr_left ih
    simp (disch := decide) only [print, path_apply_mark, path_apply_append_mark,
      path_apply_intercalate, Rule.apply_nil, unpathed, printEach_eq_map, unpathedEach_eq_map,
      List.map_cons, List.map_map, iha, ihb, ih]
  | array d b n ih =>
    have hn : path.apply n.digits = n.digits := path_apply_word n.word.isWordChar
    simp (disch := decide) only [print, path_apply_mark, path_apply_append_mark,
      path_apply_blanks, Rule.apply_nil, unpathed, ih, hn]
  | slice d ih =>
    simp (disch := decide) only [print, path_apply_mark, path_apply_append_mark, Rule.apply_nil,
      unpathed, ih]
  | generic p h hb ds ih =>
    have ih : ds.map (path.apply ∘ print) = ds.map (print ∘ unpathed) := List.map_congr_left ih
    simp (disch := decide) only [print, path_apply_append_mark, path_apply_pathChars,
      path_apply_intercalate, path_apply_word h.isWordChar, Rule.apply_nil, unpathed,
      printEach_eq_map, unpathedEach_eq_map, List.map_map, ih]
    rfl
  | box p d ih =>
    simp (disch := decide) only [print, path_apply_append_mark, path_apply_pathChars,
      path_apply_word AsciiWord.box.isWordChar, Rule.apply_nil, unpathed, ih]
    rfl
  | reference d ih =>
    simp (disch := decide) only [print, path_apply_mark, unpathed, ih]
  | lifetime l b h d ih =>
    simp (disch := decide) only [print, path_apply_mark, path_apply_lifetime l b h, unpathed, ih]
  | spaced b d ih => rw [print, path_apply_blanks, ih, unpathed, print]

end Decorated

/-! ## References and blanks -/

/-- The text without references, lifetimes and blanks. -/
def uncover (cs : List Char) : List Char := (reference.apply cs).filter (!isBlank ·)

@[simp] theorem uncover_nil : uncover [] = [] := by simp [uncover]

theorem reference_apply_eq_self {cs : List Char} (h : '&' ∉ cs) : reference.apply cs = cs := by
  refine Rule.applyFrom_eq_self (fun inWord ds hd => ?_) false
  cases ds with
  | nil => exact reference.find?_nil inWord
  | cons d ds =>
    have hd : '&' ≠ d := by rintro rfl; exact h (hd.subset List.mem_cons_self)
    simp [reference, removal, afterReference?, after?, hd]

theorem uncover_splitsAt {c : Char} (hc : isMark c = true) (h : c ≠ '&') (h' : c ≠ '\'') :
    SplitsAt c uncover := by
  have hb := isBlank_eq_false_of_isMark hc
  intro xs ys
  rw [uncover, (reference_cuts (isWordChar_eq_false_of_isMark hc) hb h h').splitsAt,
    List.filter_append, List.filter_cons_of_pos (by simp [hb])]
  rfl

theorem uncover_word (w : AsciiWord) : uncover w.chars = w.chars := by
  rw [uncover, reference_apply_eq_self (w.not_mem_chars rfl), List.filter_eq_self]
  intro c hc
  rw [isBlank_eq_false_of_isAsciiWordChar (w.ascii c hc)]
  rfl

theorem uncover_blank {c : Char} (hc : isBlank c = true) (cs : List Char) :
    uncover (c :: cs) = uncover cs := by
  have hamp : '&' ≠ c := by rintro rfl; exact absurd hc (by decide)
  have hf : reference.find? false (c :: cs) = none := by
    simp [reference, removal, afterReference?, after?, hamp]
  rw [uncover, Rule.apply, Rule.applyFrom_of_none hf, isWordChar_eq_false_of_isBlank hc,
    List.filter_cons_of_neg (by simp [hc])]
  rfl

theorem uncover_blanks (b : Blanks) (rest : List Char) :
    uncover (b.chars ++ rest) = uncover rest := by
  obtain ⟨bs, hb⟩ := b
  induction bs with
  | nil => rfl
  | cons c bs ih =>
    simp only [List.mem_cons, forall_eq_or_imp] at hb
    rw [List.cons_append, uncover_blank hb.1]
    exact ih hb.2

theorem uncover_dropWhile (cs : List Char) : uncover (cs.dropWhile isBlank) = uncover cs := by
  induction cs with
  | nil => rfl
  | cons c cs ih =>
    by_cases hc : isBlank c = true
    · rw [List.dropWhile_cons_of_pos hc, ih, uncover_blank hc]
    · rw [List.dropWhile_cons_of_neg hc]

/-- A reference is removed with what its recogniser passes over. -/
theorem uncover_amp (cs : List Char) : uncover ('&' :: cs) = uncover (afterLifetime cs) := by
  have hf : reference.find? false ('&' :: cs) =
      some ([], (afterLifetime cs).dropWhile isBlank) := by
    simp [reference, removal, afterReference?, after?]
  rw [← uncover_dropWhile (afterLifetime cs), uncover, Rule.apply, Rule.applyFrom_of_some hf]
  rfl

theorem uncover_reference {cs : List Char} (h : cs.head? ≠ some '\'') :
    uncover ('&' :: cs) = uncover cs := by
  rw [uncover_amp]
  unfold afterLifetime
  split
  · exact absurd rfl h
  · rfl

theorem uncover_lifetime (l : Lifetime) (b : Blanks) (hb : b.chars ≠ []) (rest : List Char) :
    uncover ('&' :: '\'' :: (l.chars ++ b.chars ++ rest)) = uncover rest := by
  obtain ⟨d, ds, hd⟩ := List.exists_cons_of_ne_nil hb
  have hw : isWordChar d = false := isWordChar_eq_false_of_isBlank (b.blank d (by simp [hd]))
  have ha : afterSome? isWordChar (l.chars ++ (b.chars ++ rest)) = some (b.chars ++ rest) := by
    rw [hd]
    exact afterSome?_run l.ne_nil l.word hw (ds ++ rest)
  rw [uncover_amp, List.append_assoc, afterLifetime, ha, Option.getD_some, uncover_blanks]

section

variable {c : Char} (hc : isMark c = true) (h : c ≠ '&') (h' : c ≠ '\'')

include hc h h'

theorem uncover_mark (ys : List Char) : uncover (c :: ys) = c :: uncover ys :=
  (uncover_splitsAt hc h h').cons uncover_nil ys

theorem uncover_append_mark (xs ys : List Char) :
    uncover (xs ++ c :: ys) = uncover xs ++ c :: uncover ys :=
  uncover_splitsAt hc h h' xs ys

theorem uncover_intercalate (ps : List (List Char)) :
    uncover ([c].intercalate ps) = [c].intercalate (ps.map uncover) :=
  (uncover_splitsAt hc h h').intercalate uncover_nil ps

end

namespace Decorated

theorem head_print (d : Decorated) : d.print.head? ≠ some '\'' := by
  have path : ∀ (p : List Segment) (w : AsciiWord) (rest : List Char),
      (pathChars p ++ w.chars ++ rest).head? ≠ some '\'' := by
    intro p w rest
    cases p with
    | nil =>
      obtain ⟨c, cs, hc⟩ := w.exists_cons
      have := ne_of_isWordChar (w.isWordChar c (by simp [hc])) (d := '\'') rfl
      simpa [pathChars, hc] using this
    | cons s p =>
      have := ne_of_isWordChar (s.isWordChar s.first (by simp)) (d := '\'') rfl
      simpa [pathChars] using this
  induction d with
  | name p w => simpa [print] using path p w []
  | unit => simp [print]
  | tuple a b ds => simp [print]
  | array d b n => simp [print]
  | slice d => simp [print]
  | generic p h hb ds => exact path p h _
  | box p d => exact path p .box _
  | reference d => simp [print]
  | lifetime l b h d => simp [print]
  | spaced b d ih =>
    obtain ⟨bs, hb⟩ := b
    cases bs with
    | nil => exact ih
    | cons c bs =>
      simp only [print, List.cons_append, List.head?_cons, ne_eq, Option.some.injEq]
      rintro rfl
      exact absurd (hb '\'' (by simp)) (by decide)

/-- Without paths, references and blanks a decorated text is a phrase with boxes. -/
theorem uncover_print (d : Decorated) : uncover d.unpathed.print = d.boxed.print := by
  induction d with
  | name p w => exact uncover_word w
  | unit =>
    simp (disch := decide) only [unpathed, print, boxed, uncover_mark, uncover_nil]
    rfl
  | tuple a b ds iha ihb ih =>
    have ih : ds.map (uncover ∘ print ∘ unpathed) = ds.map (Phrase.print ∘ boxed) :=
      List.map_congr_left ih
    simp (disch := decide) only [unpathed, print, boxed, Phrase.print, Phrase.printEach,
      uncover_mark, uncover_append_mark, uncover_intercalate, uncover_nil, printEach_eq_map,
      unpathedEach_eq_map, boxedEach_eq_map, Phrase.printEach_eq_map, List.map_cons, List.map_map,
      iha, ihb, ih]
  | array d b n ih =>
    have hn : uncover n.digits = n.digits := uncover_word n.word
    simp (disch := decide) only [unpathed, print, boxed, Phrase.print, uncover_mark,
      uncover_append_mark, uncover_blanks, uncover_nil, ih, hn]
  | slice d ih =>
    simp (disch := decide) only [unpathed, print, boxed, Phrase.print, uncover_mark,
      uncover_append_mark, uncover_nil, ih]
  | generic p h hb ds ih =>
    have ih : ds.map (uncover ∘ print ∘ unpathed) = ds.map (Phrase.print ∘ boxed) :=
      List.map_congr_left ih
    simp (disch := decide) only [unpathed, print, boxed, Phrase.print, uncover_append_mark,
      uncover_intercalate, uncover_nil, uncover_word, pathChars, List.flatMap_nil,
      List.nil_append, printEach_eq_map, unpathedEach_eq_map, boxedEach_eq_map,
      Phrase.printEach_eq_map, List.map_map, ih]
  | box p d ih =>
    simp (disch := decide) only [unpathed, print, boxed, Phrase.print, Phrase.printEach,
      uncover_append_mark, uncover_nil, uncover_word, pathChars, List.flatMap_nil,
      List.nil_append, List.intercalate_singleton, ih]
  | reference d ih =>
    rw [unpathed, print, uncover_reference (head_print _), ih, boxed]
  | lifetime l b h d ih =>
    rw [unpathed, print, uncover_lifetime l b h, ih, boxed]
  | spaced b d ih =>
    rw [unpathed, print, uncover_blanks, ih, boxed]

end Decorated

end ChainTypings.Spelling
