import ChainTypings.Bracket

/-!
# Well-bracketed text

`Nested outer cs` says that the brackets of a text pair up, kind by kind, and that each character
outside all of them passes `outer`. Every reader of brackets passes over such a text as a whole:
the stack of the balance check, the depth of the matcher and the depth of the splitter come out of
it as they went in.

`splitTopLevel_intercalate` is the use made of it: well-bracketed parts that hold no separator
outside their brackets are what their joined text is split into.
-/

namespace ChainTypings.Bracket

/-- Well-bracketed text in which every character outside the brackets passes `outer`. -/
inductive Nested : (Char → Prop) → List Char → Prop
  | nil {outer} : Nested outer []
  | plain {outer c cs} : isOpener c = false → isCloser c = false → outer c → Nested outer cs →
      Nested outer (c :: cs)
  | pair {outer o k inside after} : closerOf? o = some k → Nested (fun _ => True) inside →
      Nested outer after → Nested outer (o :: (inside ++ k :: after))

namespace Nested

variable {outer : Char → Prop} {cs ds : List Char}

theorem append (h : Nested outer cs) (h' : Nested outer ds) : Nested outer (cs ++ ds) := by
  induction h with
  | nil => exact h'
  | plain ho hc hp _ ih => exact .plain ho hc hp (ih h')
  | pair hk hi _ _ ih =>
    rw [List.cons_append, List.append_assoc, List.cons_append]
    exact .pair hk hi (ih h')

theorem mono {outer' : Char → Prop} (h : Nested outer cs) (hp : ∀ c, outer c → outer' c) :
    Nested outer' cs := by
  induction h with
  | nil => exact .nil
  | plain ho hc hc' _ ih => exact .plain ho hc (hp _ hc') (ih hp)
  | pair hk hi _ _ ih => exact .pair hk hi (ih hp)

/-- One pair of brackets around well-bracketed text. -/
theorem bracket {o k : Char} (hk : closerOf? o = some k) (h : Nested (fun _ => True) cs) :
    Nested outer (o :: (cs ++ [k])) :=
  .pair hk h .nil

/-- Text without brackets. -/
theorem of_forall (ho : ∀ c ∈ cs, isOpener c = false) (hc : ∀ c ∈ cs, isCloser c = false)
    (hp : ∀ c ∈ cs, outer c) : Nested outer cs := by
  induction cs with
  | nil => exact .nil
  | cons c cs ih =>
    simp only [List.mem_cons, forall_eq_or_imp] at ho hc hp
    exact .plain ho.1 hc.1 hp.1 (ih ho.2 hc.2 hp.2)

end Nested

/-! ## Brackets of one kind -/

theorem isOpener_of_closerOf? {o k : Char} (h : closerOf? o = some k) : isOpener o = true := by
  rw [isOpener, h]
  rfl

theorem isCloser_of_closerOf? {o k : Char} (h : closerOf? o = some k) :
    isCloser k = true ∧ isOpener k = false := by
  unfold closerOf? at h
  split at h
  all_goals first | (obtain rfl := Option.some.inj h; decide) | simp at h

/-- Each closing bracket has one opening bracket. -/
theorem eq_of_closerOf? {o c k : Char} (ho : closerOf? o = some k) (hc : closerOf? c = some k) :
    c = o := by
  have hopeners : ∀ d j, closerOf? d = some j → (d, j) ∈ [('<', '>'), ('(', ')'), ('[', ']'),
      ('{', '}')] := by
    intro d j hd
    unfold closerOf? at hd
    split at hd
    all_goals cases hd
    all_goals decide
  have hpairs := hopeners o k ho
  have hpairs' := hopeners c k hc
  simp only [List.mem_cons, Prod.mk.injEq, List.not_mem_nil, or_false] at hpairs hpairs'
  rcases hpairs with ⟨rfl, rfl⟩ | ⟨rfl, rfl⟩ | ⟨rfl, rfl⟩ | ⟨rfl, rfl⟩
  all_goals simpa using hpairs'

theorem closerOf?_eq_none {c : Char} (h : isOpener c = false) : closerOf? c = none := by
  rw [isOpener] at h
  exact Option.isNone_iff_eq_none.1 (by simpa using h)

/-! ## The balance check -/

section

variable {c k : Char} (pending cs : List Char)

theorem closes_opener (h : closerOf? c = some k) :
    closes pending (c :: cs) = closes (k :: pending) cs := by
  unfold closes
  simp only [h]
  cases cs <;> rfl

theorem closes_closer (ho : isOpener c = false) (hc : isCloser c = true) :
    closes (c :: pending) (c :: cs) = closes pending cs := by
  rw [closes.eq_def]
  simp [closerOf?_eq_none ho, hc]

theorem closes_plain (ho : isOpener c = false) (hc : isCloser c = false) :
    closes pending (c :: cs) = closes pending cs := by
  rw [closes.eq_def]
  simp [closerOf?_eq_none ho, hc]

end

theorem closes_append_of_nested {outer : Char → Prop} {cs : List Char} (h : Nested outer cs)
    (pending rest : List Char) : closes pending (cs ++ rest) = closes pending rest := by
  induction h generalizing pending rest with
  | nil => rfl
  | plain ho hc _ _ ih => rw [List.cons_append, closes_plain _ _ ho hc, ih]
  | pair hk _ _ ihi iha =>
    obtain ⟨hc, ho⟩ := isCloser_of_closerOf? hk
    -- the closing bracket that the opener puts on the stack is the one that takes it off
    rw [List.cons_append, List.append_assoc, List.cons_append, closes_opener _ _ hk, ihi,
      closes_closer _ _ ho hc, iha]

theorem isBalanced_of_nested {outer : Char → Prop} {cs : List Char} (h : Nested outer cs) :
    isBalanced cs = true := by
  have := closes_append_of_nested h [] []
  rwa [List.append_nil] at this

/-! ## The matcher -/

section

variable {c : Char} (depth : Nat) (cs : List Char)

theorem enclosed_opener (ho : isOpener c = true) :
    enclosed depth (c :: cs) = (enclosed (depth + 1) cs).map (consFst c) := by
  rw [enclosed.eq_def]
  simp [ho]

theorem enclosed_closer_zero (ho : isOpener c = false) (hc : isCloser c = true) :
    enclosed 0 (c :: cs) = some ([], cs) := by
  rw [enclosed.eq_def]
  simp [ho, hc]

theorem enclosed_closer_succ (ho : isOpener c = false) (hc : isCloser c = true) :
    enclosed (depth + 1) (c :: cs) = (enclosed depth cs).map (consFst c) := by
  rw [enclosed.eq_def]
  simp [ho, hc]

theorem enclosed_plain (ho : isOpener c = false) (hc : isCloser c = false) :
    enclosed depth (c :: cs) = (enclosed depth cs).map (consFst c) := by
  rw [enclosed.eq_def]
  simp [ho, hc]

end

theorem enclosed_append_of_nested {outer : Char → Prop} {cs : List Char} (h : Nested outer cs)
    (depth : Nat) (rest : List Char) :
    enclosed depth (cs ++ rest) = (enclosed depth rest).map fun (i, a) => (cs ++ i, a) := by
  induction h generalizing depth rest with
  | nil => simp
  | plain ho hc _ _ ih =>
    rw [List.cons_append, enclosed_plain _ _ ho hc, ih, Option.map_map]
    rfl
  | pair hk _ _ ihi iha =>
    obtain ⟨hc, ho⟩ := isCloser_of_closerOf? hk
    rw [List.cons_append, enclosed_opener _ _ (isOpener_of_closerOf? hk), List.append_assoc, ihi,
      List.cons_append, enclosed_closer_succ _ _ ho hc, iha]
    simp only [Option.map_map]
    congr 1
    funext p
    simp [consFst]

/-- The matcher stops at the bracket that closes well-bracketed text. -/
theorem enclosed_of_nested {outer : Char → Prop} {cs : List Char} {k : Char}
    (h : Nested outer cs) (hk : isCloser k = true) (hk' : isOpener k = false)
    (rest : List Char) : enclosed 0 (cs ++ k :: rest) = some (cs, rest) := by
  rw [enclosed_append_of_nested h, enclosed_closer_zero _ hk' hk]
  simp

/-! ## The splitter -/

/-- Puts a text in front of the first of several. -/
def attach (cs : List Char) : List (List Char) → List (List Char)
  | [] => [cs]
  | p :: ps => (cs ++ p) :: ps

theorem consHead_attach (c : Char) (cs : List Char) (ps : List (List Char)) :
    consHead c (attach cs ps) = attach (c :: cs) ps := by
  cases ps <;> rfl

theorem attach_attach (cs ds : List Char) (ps : List (List Char)) :
    attach cs (attach ds ps) = attach (cs ++ ds) ps := by
  cases ps <;> simp [attach]

theorem segments_ne_nil (separator : List Char) (depth : Int) (cs : List Char) :
    segments separator depth cs ≠ [] := by
  have hcons : ∀ c ps, consHead c ps ≠ [] := by
    intro c ps
    cases ps <;> simp [consHead]
  cases cs with
  | nil => simp [segments]
  | cons c cs =>
    unfold segments
    split
    · exact hcons _ _
    · split
      · exact hcons _ _
      · split
        · simp
        · exact hcons _ _

theorem attach_nil {ps : List (List Char)} (h : ps ≠ []) : attach [] ps = ps := by
  cases ps with
  | nil => exact absurd rfl h
  | cons p ps => rfl

section

variable {c : Char} (separator : List Char) (depth : Int) (cs : List Char)

theorem segments_opener (ho : isOpener c = true) : segments separator depth (c :: cs) =
    consHead c (segments separator (depth + 1) cs) := by
  rw [segments, if_pos ho]

theorem segments_closer (ho : isOpener c = false) (hc : isCloser c = true) :
    segments separator depth (c :: cs) = consHead c (segments separator (depth - 1) cs) := by
  rw [segments, ho, hc]
  rfl

theorem segments_plain (ho : isOpener c = false) (hc : isCloser c = false)
    (hs : ¬(separator = [c] ∧ depth = 0)) :
    segments separator depth (c :: cs) = consHead c (segments separator depth cs) := by
  rw [segments, ho, hc, if_neg hs]
  rfl

end

/-- Well-bracketed text is not split inside a bracket, nor outside all brackets unless the
separator stands there. -/
theorem segments_append_of_nested {outer : Char → Prop} {cs : List Char} (h : Nested outer cs)
    (separator : List Char) (depth : Int) (hd : 0 ≤ depth)
    (hs : depth = 0 → ∀ c, outer c → separator ≠ [c]) (rest : List Char) :
    segments separator depth (cs ++ rest) = attach cs (segments separator depth rest) := by
  induction h generalizing depth rest with
  | nil => rw [attach_nil (segments_ne_nil _ _ _)]; rfl
  | plain ho hc hp _ ih =>
    -- a plain character stands outside all brackets only at depth zero, where it is no separator
    have hns := fun h : separator = [_] ∧ depth = 0 => hs h.2 _ hp h.1
    rw [List.cons_append, segments_plain _ _ _ ho hc hns, ih depth hd hs, consHead_attach]
  | pair hk _ _ ihi iha =>
    obtain ⟨hc, ho⟩ := isCloser_of_closerOf? hk
    rw [List.cons_append, segments_opener _ _ _ (isOpener_of_closerOf? hk), List.append_assoc,
      ihi (depth + 1) (by omega) (by omega), List.cons_append, segments_closer _ _ _ ho hc,
      Int.add_sub_cancel, iha depth hd hs, consHead_attach, consHead_attach, attach_attach,
      List.cons_append]

/-- Well-bracketed text that holds no separator outside its brackets. -/
abbrev Part (separator : Char) : List Char → Prop := Nested (· ≠ separator)

section

variable {s : Char} (hs : isOpener s = false) (hs' : isCloser s = false)

theorem segments_part {p : List Char} (h : Part s p) : segments [s] 0 p = [p] := by
  have := segments_append_of_nested h [s] 0 (by omega)
    (fun _ c hc he => hc (List.cons.inj he).1.symm) []
  rw [List.append_nil] at this
  rw [this]
  simp [segments, attach]

include hs hs' in
theorem segments_part_append {p : List Char} (h : Part s p) (rest : List Char) :
    segments [s] 0 (p ++ s :: rest) = p :: segments [s] 0 rest := by
  rw [segments_append_of_nested h [s] 0 (by omega)
    (fun _ c hc he => hc (List.cons.inj he).1.symm), segments, hs, hs']
  simp [attach]

include hs hs' in
theorem segments_intercalate {ps : List (List Char)} (hne : ps ≠ []) (h : ∀ p ∈ ps, Part s p) :
    segments [s] 0 ([s].intercalate ps) = ps := by
  induction ps with
  | nil => exact absurd rfl hne
  | cons p ps ih =>
    cases ps with
    | nil => rw [List.intercalate_singleton, segments_part (h p (by simp))]
    | cons q qs =>
      rw [List.intercalate_cons_cons, List.append_assoc, List.singleton_append,
        segments_part_append hs hs' (h p (by simp)),
        ih (by simp) (fun r hr => h r (List.mem_cons_of_mem _ hr))]

include hs hs' in
/-- Splitting undoes joining. -/
theorem splitTopLevel_intercalate {ps : List (List Char)} (hne : ∀ p ∈ ps, p ≠ [])
    (h : ∀ p ∈ ps, Part s p) : splitTopLevel [s] ([s].intercalate ps) = ps := by
  cases ps with
  | nil => rfl
  | cons p ps =>
    rw [splitTopLevel, segments_intercalate hs hs' (by simp) h, List.filter_eq_self]
    intro q hq
    simpa using hne q hq

end

end ChainTypings.Bracket
