import ChainTypings.Proofs.Bracket.Nested

/-!
# Checks of brackets

The balance check compares kinds; `nests` only counts, so that it refuses a text exactly if a
bracket closes too early or stays open. Both go through the text from left to right and pass over
a balanced piece as if it were not there: this is a `Check`.

Text that is rewritten before it is checked may lose its faults. `Check.Survives cs ds` says that
none gets lost from `cs` to `ds`: from whatever state, a check that accepts `ds` accepts `cs`.
-/

namespace ChainTypings.Bracket

/-! ## Balanced text is well-bracketed -/

theorem closes_of_ne {c : Char} (ho : isOpener c = false) (hc : isCloser c = true)
    {k : Char} (hk : k ≠ c) (pending cs : List Char) : closes (k :: pending) (c :: cs) = false := by
  rw [closes.eq_def]
  simp [closerOf?_eq_none ho, hc, hk]

/-- The outermost pending bracket is closed somewhere. In front of its closer the others are
closed, and behind it those that are pending further out. -/
theorem exists_of_closes_append {inner pending cs : List Char} {k : Char}
    (h : closes (inner ++ k :: pending) cs = true) :
    ∃ inside rest, cs = inside ++ k :: rest ∧ closes inner inside = true ∧
      closes pending rest = true := by
  induction cs generalizing inner with
  | nil =>
    rw [closes.eq_def] at h
    cases inner <;> exact absurd h (by simp)
  | cons c cs ih =>
    cases ho : closerOf? c with
    | some j =>
      rw [closes_opener _ _ ho, ← List.cons_append] at h
      obtain ⟨inside, rest, rfl, hinside, hrest⟩ := ih h
      exact ⟨c :: inside, rest, rfl, by rwa [closes_opener _ _ ho], hrest⟩
    | none =>
      have hopen : isOpener c = false := by rw [isOpener, ho]; rfl
      by_cases hc : isCloser c = true
      · cases inner with
        | nil =>
          by_cases hk : k = c
          · subst hk
            rw [List.nil_append, closes_closer _ _ hopen hc] at h
            exact ⟨[], cs, rfl, rfl, h⟩
          · rw [List.nil_append, closes_of_ne hopen hc hk] at h
            exact absurd h Bool.false_ne_true
        | cons j inner =>
          by_cases hj : j = c
          · subst hj
            rw [List.cons_append, closes_closer _ _ hopen hc] at h
            obtain ⟨inside, rest, rfl, hinside, hrest⟩ := ih h
            exact ⟨j :: inside, rest, rfl, by rwa [closes_closer _ _ hopen hc], hrest⟩
          · rw [List.cons_append, closes_of_ne hopen hc hj] at h
            exact absurd h Bool.false_ne_true
      · rw [Bool.not_eq_true] at hc
        rw [closes_plain _ _ hopen hc] at h
        obtain ⟨inside, rest, rfl, hinside, hrest⟩ := ih h
        exact ⟨c :: inside, rest, rfl, by rwa [closes_plain _ _ hopen hc], hrest⟩

/-- The only pending bracket is closed between two balanced texts. -/
theorem exists_of_closes {cs : List Char} {k : Char} (h : closes [k] cs = true) :
    ∃ inside rest, cs = inside ++ k :: rest ∧ isBalanced inside = true ∧
      isBalanced rest = true := by
  have hclose : closes ([] ++ k :: []) cs = true := h
  exact exists_of_closes_append hclose

/-- Balanced text is well-bracketed. -/
theorem nested_of_isBalanced {cs : List Char} (h : isBalanced cs = true) :
    Nested (fun _ => True) cs := by
  match cs with
  | [] => exact .nil
  | c :: cs =>
    cases ho : closerOf? c with
    | some k =>
      -- the pair of the first bracket, then what stands in it and what follows it
      rw [isBalanced, closes_opener _ _ ho] at h
      obtain ⟨inside, rest, heq, hinside, hrest⟩ := exists_of_closes h
      have hpair : Nested (fun _ => True) (c :: (inside ++ k :: rest)) :=
        .pair ho (nested_of_isBalanced hinside) (nested_of_isBalanced hrest)
      rwa [heq]
    | none =>
      have hopen : isOpener c = false := by rw [isOpener, ho]; rfl
      by_cases hc : isCloser c = true
      · rw [isBalanced, closes.eq_def] at h
        simp [ho, hc] at h
      · rw [Bool.not_eq_true] at hc
        rw [isBalanced, closes_plain _ _ hopen hc] at h
        exact .plain hopen hc trivial (nested_of_isBalanced h)
termination_by cs.length
decreasing_by
  all_goals
    subst_vars
    simp only [List.length_append, List.length_cons]
    omega

/-- Parentheses around text without parentheses balance only if the text does. -/
theorem isBalanced_of_parentheses {element : List Char} (hmem : ')' ∉ element)
    (h : isBalanced ('(' :: (element ++ [')'])) = true) : isBalanced element = true := by
  rw [isBalanced, closes_opener (k := ')') _ _ rfl] at h
  obtain ⟨inside, rest, heq, hinside, -⟩ := exists_of_closes h
  rcases List.append_eq_append_iff.1 heq with ⟨mid, rfl, hmid⟩ | ⟨mid, rfl, hmid⟩
  · cases mid with
    | nil => rwa [List.append_nil] at hinside
    | cons m mid => simp at hmid
  · cases mid with
    | nil => rwa [List.append_nil]
    | cons m mid =>
      obtain rfl := (List.cons.inj hmid).1
      exact absurd (by simp) hmem

/-- Text without brackets of one kind up to the closing bracket of that kind: with `inner` pending
in front of it, the text closes `inner`. -/
theorem closes_of_apart {o k : Char} (hk : closerOf? o = some k) {inner pending cs rest : List Char}
    (hinner : k ∉ inner) (ho : o ∉ cs) (hc : k ∉ cs)
    (h : closes (inner ++ k :: pending) (cs ++ k :: rest) = true) :
    closes inner cs = true ∧ closes pending rest = true := by
  obtain ⟨hclose, hopen⟩ := isCloser_of_closerOf? hk
  induction cs generalizing inner with
  | nil =>
    cases inner with
    | nil =>
      rw [List.nil_append, List.nil_append, closes_closer _ _ hopen hclose] at h
      exact ⟨rfl, h⟩
    | cons j inner =>
      have hj : j ≠ k := fun hj => hinner (hj ▸ List.mem_cons_self)
      rw [List.nil_append, List.cons_append, closes_of_ne hopen hclose hj] at h
      cases h
  | cons c cs ih =>
    simp only [List.mem_cons, not_or] at ho hc
    obtain ⟨hco, ho⟩ := ho
    obtain ⟨hck, hc⟩ := hc
    rw [List.cons_append] at h
    cases hj : closerOf? c with
    | some j =>
      -- only its own opening bracket puts the closing bracket on the stack
      have hne : k ≠ j := by
        rintro rfl
        exact hco (eq_of_closerOf? hk hj).symm
      rw [closes_opener _ _ hj] at h ⊢
      exact ih (by simp [hne, hinner]) ho hc h
    | none =>
      have hplain : isOpener c = false := by rw [isOpener, hj]; rfl
      by_cases hcloser : isCloser c = true
      · cases inner with
        | nil =>
          rw [List.nil_append, closes_of_ne hplain hcloser hck] at h
          cases h
        | cons j inner =>
          by_cases hjc : j = c
          · subst hjc
            rw [List.cons_append, closes_closer _ _ hplain hcloser] at h
            rw [closes_closer _ _ hplain hcloser]
            exact ih (fun hmem => hinner (List.mem_cons_of_mem _ hmem)) ho hc h
          · rw [List.cons_append, closes_of_ne hplain hcloser hjc] at h
            cases h
      · rw [Bool.not_eq_true] at hcloser
        rw [closes_plain _ _ hplain hcloser] at h ⊢
        exact ih hinner ho hc h

/-- Text without brackets of one kind between two brackets of that kind is balanced if they are a
pair. -/
theorem isBalanced_of_apart {o k : Char} (hk : closerOf? o = some k) {pending cs rest : List Char}
    (ho : o ∉ cs) (hc : k ∉ cs) (h : closes (k :: pending) (cs ++ k :: rest) = true) :
    isBalanced cs = true ∧ closes pending rest = true := by
  have hclose : closes ([] ++ k :: pending) (cs ++ k :: rest) = true := h
  exact closes_of_apart hk (by simp) ho hc hclose

/-- Angle brackets that the matcher takes for a pair balance only if their inside does. -/
theorem isBalanced_of_enclosed {inside after : List Char} {k : Char}
    (he : enclosed 0 (inside ++ k :: after) = some (inside, after))
    (h : isBalanced ('<' :: (inside ++ [k])) = true) : isBalanced inside = true := by
  rw [isBalanced, closes_opener (k := '>') _ _ rfl] at h
  obtain ⟨front, rest, heq, hfront, -⟩ := exists_of_closes h
  have hcut : inside ++ k :: after = front ++ '>' :: (rest ++ after) := by
    rw [← List.singleton_append, ← List.append_assoc, heq, List.append_assoc, List.cons_append]
  -- the matcher stops where the balanced front ends
  rw [hcut, enclosed_of_nested (nested_of_isBalanced hfront) rfl rfl] at he
  obtain ⟨rfl, -⟩ := Prod.mk.inj (Option.some.inj he)
  exact hfront

/-! ## Counting brackets -/

/-- Whether the brackets close when `depth` of them are open, of whatever kinds: none closes
before one opens, and none stays open. -/
def nests : Nat → List Char → Bool
  | depth, [] => depth == 0
  | depth, c :: cs =>
    if isOpener c then nests (depth + 1) cs
    else if isCloser c then
      match depth with
      | 0 => false
      | depth + 1 => nests depth cs
    else nests depth cs

section

variable {c : Char} (depth : Nat) (cs : List Char)

theorem nests_opener (ho : isOpener c = true) :
    nests depth (c :: cs) = nests (depth + 1) cs := by
  rw [nests.eq_def]
  simp [ho]

theorem nests_closer_zero (ho : isOpener c = false) (hc : isCloser c = true) :
    nests 0 (c :: cs) = false := by
  rw [nests.eq_def]
  simp [ho, hc]

theorem nests_closer_succ (ho : isOpener c = false) (hc : isCloser c = true) :
    nests (depth + 1) (c :: cs) = nests depth cs := by
  rw [nests.eq_def]
  simp [ho, hc]

theorem nests_plain (ho : isOpener c = false) (hc : isCloser c = false) :
    nests depth (c :: cs) = nests depth cs := by
  rw [nests.eq_def]
  simp [ho, hc]

end

theorem map_consFst_eq_some {c : Char} {found : Option (List Char × List Char)}
    {inside after : List Char} :
    found.map (consFst c) = some (inside, after) ↔
      ∃ inner, inside = c :: inner ∧ found = some (inner, after) := by
  rw [Option.map_eq_some_iff]
  constructor
  · rintro ⟨⟨inner, tail⟩, hfound, heq⟩
    obtain ⟨rfl, rfl⟩ := Prod.mk.inj heq
    exact ⟨inner, rfl, hfound⟩
  · rintro ⟨inner, rfl, hfound⟩
    exact ⟨_, hfound, rfl⟩

/-- The matcher stops at the first closing bracket in front of which the brackets close. -/
theorem enclosed_eq_some_iff {depth : Nat} {cs inside after : List Char} :
    enclosed depth cs = some (inside, after) ↔ ∃ k, cs = inside ++ k :: after ∧
      isOpener k = false ∧ isCloser k = true ∧ nests depth inside = true := by
  induction cs generalizing depth inside with
  | nil => simp [enclosed]
  | cons c cs ih =>
    -- a character that the matcher passes over is the first of what it encloses
    have passed : ∀ {d}, (isOpener c = true ∨ isCloser c = false ∨ depth ≠ 0) →
        (∀ inner, nests depth (c :: inner) = nests d inner) →
        ((enclosed d cs).map (consFst c) = some (inside, after) ↔ ∃ k, c :: cs = inside ++ k :: after ∧
          isOpener k = false ∧ isCloser k = true ∧ nests depth inside = true) := by
      intro d hgoes hnests
      rw [map_consFst_eq_some]
      constructor
      · rintro ⟨inner, rfl, hfound⟩
        obtain ⟨k, rfl, ho, hc, hinner⟩ := ih.1 hfound
        exact ⟨k, rfl, ho, hc, (hnests inner).trans hinner⟩
      · rintro ⟨k, heq, ho, hc, hinside⟩
        cases inside with
        | nil =>
          obtain rfl := (List.cons.inj heq).1
          rcases hgoes with hopen | hplain | hdepth
          · rw [ho] at hopen
            cases hopen
          · rw [hc] at hplain
            cases hplain
          · exact absurd (by simpa [nests] using hinside) hdepth
        | cons d inside =>
          obtain ⟨rfl, rfl⟩ := List.cons.inj heq
          exact ⟨inside, rfl, ih.2 ⟨k, rfl, ho, hc, (hnests inside).symm.trans hinside⟩⟩
    by_cases ho : isOpener c = true
    · rw [enclosed_opener _ _ ho]
      exact passed (.inl ho) fun inner => nests_opener _ _ ho
    · rw [Bool.not_eq_true] at ho
      by_cases hc : isCloser c = true
      · cases depth with
        | zero =>
          rw [enclosed_closer_zero _ ho hc, Option.some.injEq, Prod.mk.injEq]
          constructor
          · rintro ⟨rfl, rfl⟩
            exact ⟨c, rfl, ho, hc, rfl⟩
          · rintro ⟨k, heq, -, -, hinside⟩
            cases inside with
            | nil => exact ⟨rfl, (List.cons.inj heq).2⟩
            | cons d inside =>
              obtain ⟨rfl, rfl⟩ := List.cons.inj heq
              rw [nests_closer_zero _ ho hc] at hinside
              cases hinside
        | succ depth =>
          rw [enclosed_closer_succ _ _ ho hc]
          exact passed (.inr (.inr (Nat.succ_ne_zero depth))) fun inner =>
            nests_closer_succ _ _ ho hc
      · rw [Bool.not_eq_true] at hc
        rw [enclosed_plain _ _ ho hc]
        exact passed (.inr (.inl hc)) fun inner => nests_plain _ _ ho hc

/-- The matcher stops at a closing bracket. -/
theorem isCloser_of_enclosed {depth : Nat} {inside after : List Char} {k : Char}
    (h : enclosed depth (inside ++ k :: after) = some (inside, after)) :
    isOpener k = false ∧ isCloser k = true := by
  obtain ⟨j, heq, ho, hc, -⟩ := enclosed_eq_some_iff.1 h
  obtain rfl := (List.cons.inj (List.append_cancel_left heq)).1
  exact ⟨ho, hc⟩

theorem nests_append_of_nested {outer : Char → Prop} {cs : List Char} (h : Nested outer cs)
    (depth : Nat) (rest : List Char) : nests depth (cs ++ rest) = nests depth rest := by
  induction h generalizing depth rest with
  | nil => rfl
  | plain ho hc _ _ ih => rw [List.cons_append, nests_plain _ _ ho hc, ih]
  | pair hk _ _ ihi iha =>
    obtain ⟨hc, ho⟩ := isCloser_of_closerOf? hk
    rw [List.cons_append, List.append_assoc, List.cons_append,
      nests_opener _ _ (isOpener_of_closerOf? hk), ihi, nests_closer_succ _ _ ho hc, iha]

theorem nests_of_isBalanced {cs : List Char} (h : isBalanced cs = true) : nests 0 cs = true := by
  have hrest := nests_append_of_nested (nested_of_isBalanced h) 0 []
  rwa [List.append_nil] at hrest

/-- A bracket that closes behind text may be left out if one less is open in front of it. -/
theorem nests_succ_append {k : Char} (ho : isOpener k = false) (hc : isCloser k = true)
    {depth : Nat} {cs rest : List Char} (h : nests depth (cs ++ rest) = true) :
    nests (depth + 1) (cs ++ k :: rest) = true := by
  induction cs generalizing depth with
  | nil => rwa [List.nil_append, nests_closer_succ _ _ ho hc]
  | cons c cs ih =>
    rw [List.cons_append] at h ⊢
    by_cases hopen : isOpener c = true
    · rw [nests_opener _ _ hopen] at h ⊢
      exact ih h
    · rw [Bool.not_eq_true] at hopen
      by_cases hclose : isCloser c = true
      · cases depth with
        | zero =>
          rw [nests_closer_zero _ hopen hclose] at h
          exact absurd h Bool.false_ne_true
        | succ depth =>
          rw [nests_closer_succ _ _ hopen hclose] at h ⊢
          exact ih h
      · rw [Bool.not_eq_true] at hclose
        rw [nests_plain _ _ hopen hclose] at h ⊢
        exact ih h

/-! ## Checks -/

/-- A check that goes through a text from left to right. -/
structure Check (σ : Type) where
  /-- Whether the check accepts a text, started in a state. -/
  accepts : σ → List Char → Bool
  /-- What a character does to the state is all that it does to the verdict. -/
  cons : ∀ {c : Char} {cs ds : List Char},
    (∀ s, accepts s ds = true → accepts s cs = true) →
    ∀ s, accepts s (c :: ds) = true → accepts s (c :: cs) = true
  /-- A balanced piece leaves the state as it was. -/
  skip : ∀ {piece : List Char}, isBalanced piece = true →
    ∀ s rest, accepts s (piece ++ rest) = accepts s rest

/-- The check that compares kinds. -/
def byKind : Check (List Char) where
  accepts := closes
  cons {c cs ds} h pending := by
    cases ho : closerOf? c with
    | some k =>
      rw [closes_opener _ _ ho, closes_opener _ _ ho]
      exact h _
    | none =>
      have hopen : isOpener c = false := by rw [isOpener, ho]; rfl
      by_cases hc : isCloser c = true
      · cases pending with
        | nil => simp [closes, ho, hc]
        | cons k pending =>
          by_cases hk : k = c
          · subst hk
            rw [closes_closer _ _ hopen hc, closes_closer _ _ hopen hc]
            exact h _
          · rw [closes_of_ne hopen hc hk]
            exact fun hfalse => absurd hfalse Bool.false_ne_true
      · rw [Bool.not_eq_true] at hc
        rw [closes_plain _ _ hopen hc, closes_plain _ _ hopen hc]
        exact h _
  skip h := closes_append_of_nested (nested_of_isBalanced h)

/-- The check that only counts. -/
def byCount : Check Nat where
  accepts := nests
  cons {c cs ds} h depth := by
    by_cases ho : isOpener c = true
    · rw [nests_opener _ _ ho, nests_opener _ _ ho]
      exact h _
    · rw [Bool.not_eq_true] at ho
      by_cases hc : isCloser c = true
      · cases depth with
        | zero =>
          rw [nests_closer_zero _ ho hc]
          exact fun hfalse => absurd hfalse Bool.false_ne_true
        | succ depth =>
          rw [nests_closer_succ _ _ ho hc, nests_closer_succ _ _ ho hc]
          exact h _
      · rw [Bool.not_eq_true] at hc
        rw [nests_plain _ _ ho hc, nests_plain _ _ ho hc]
        exact h _
  skip h := nests_append_of_nested (nested_of_isBalanced h)

namespace Check

variable {σ : Type} (check : Check σ) {cs ds es : List Char}

/-- No fault of the first text gets lost in the second. -/
def Survives (cs ds : List Char) : Prop :=
  ∀ s, check.accepts s ds = true → check.accepts s cs = true

variable {check}

theorem Survives.refl (cs : List Char) : check.Survives cs cs := fun _ h => h

theorem Survives.trans (h : check.Survives cs ds) (h' : check.Survives ds es) :
    check.Survives cs es := fun s he => h s (h' s he)

theorem Survives.refuses (h : check.Survives cs ds) {s : σ} (hfault : check.accepts s cs = false) :
    check.accepts s ds = false := by
  cases haccepts : check.accepts s ds with
  | false => rfl
  | true =>
    rw [h s haccepts] at hfault
    exact hfault

theorem Survives.cons (c : Char) (h : check.Survives cs ds) :
    check.Survives (c :: cs) (c :: ds) := check.cons h

theorem Survives.append (front : List Char) (h : check.Survives cs ds) :
    check.Survives (front ++ cs) (front ++ ds) := by
  induction front with
  | nil => exact h
  | cons c front ih => exact ih.cons c

/-- A balanced piece may be left out, and another one put in its place. -/
theorem Survives.replace {piece new : List Char} (hpiece : isBalanced piece = true)
    (hnew : isBalanced new = true) (h : check.Survives cs ds) :
    check.Survives (piece ++ cs) (new ++ ds) := by
  intro s haccepts
  rw [check.skip hnew] at haccepts
  rw [check.skip hpiece]
  exact h s haccepts

theorem Survives.drop {piece : List Char} (hpiece : isBalanced piece = true)
    (h : check.Survives cs ds) : check.Survives (piece ++ cs) ds := by
  show check.Survives (piece ++ cs) ([] ++ ds)
  exact h.replace hpiece rfl

/-- The check loses no fault when a pair of brackets is taken off a text. -/
def Opens (opener : Char) (inside : List Char) (closer : Char) : Prop :=
  ∀ rest, check.Survives (opener :: (inside ++ closer :: rest)) (inside ++ rest)

variable {opener closer : Char} {inside : List Char}

/-- Comparing kinds loses no fault in a balanced pair around balanced text. -/
theorem opens_byKind (hpair : isBalanced (opener :: (inside ++ [closer])) = true)
    (hinside : isBalanced inside = true) : byKind.Opens opener inside closer := by
  intro rest
  have hrest : byKind.Survives rest rest := .refl rest
  simpa using hrest.replace hpair hinside

/-- Counting loses no fault, whatever the pair and what stands in it. -/
theorem opens_byCount (hopener : isOpener opener = true) (hclose : isCloser closer = true)
    (hcloser : isOpener closer = false) : byCount.Opens opener inside closer := by
  intro rest depth haccepts
  show nests depth (opener :: (inside ++ closer :: rest)) = true
  rw [nests_opener _ _ hopener]
  exact nests_succ_append hcloser hclose haccepts

end Check

end ChainTypings.Bracket
