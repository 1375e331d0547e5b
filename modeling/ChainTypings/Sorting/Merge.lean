import ChainTypings.Sorting.Search

/-!
# Two runs as one

Two ascending runs, one behind the other, are merged. What stands right already, at the head of the
first and at the back of the second, is left alone; of the rest the shorter run is merged into the
longer one, from its head up or from its back down. The walk through both goes one by one until one
of them wins several times in a row, and then in chunks for as long as chunks are long. How many
wins it takes is the *patience*, which grows when chunks were not worth while and shrinks when they
were, and is handed on from one merge to the next.

`perm_merge` says that nothing is lost and `ascending_merge` that the result ascends, if the
comparison is an order and both runs ascend.
-/

namespace ChainTypings.Sorting

variable {α : Type}

/-- So many elements in a row make a chunk worth while. -/
def worthwhile : Nat := 7

/-- How a walk through a short run and a long one goes on. -/
inductive Pace where
  /-- One by one. Which run gave the last element, and how many in a row. -/
  | single (fromLong : Bool) (wins : Nat)
  /-- A chunk of the one run and then the head of the other. -/
  | first
  /-- The same with the runs changed about, after a chunk of the given length. -/
  | second (length : Nat)

/-- Whether the next head is that of the long run. One by one it is so if that head goes before the
other; in chunks, the head of the later run comes first. -/
def Pace.takesLong (way : Way) (before : Bool) : Pace → Bool
  | single .. => before
  | first => way = .up
  | second _ => way = .down

/-- How a walk goes on after a chunk of one run and the head of the other, and with how much
patience. -/
def Pace.next (fromLong : Bool) (chunk patience : Nat) : Pace → Pace × Nat
  | single last wins =>
    let wins := if last = fromLong then wins + 1 else 1
    (if patience ≤ wins then first else single fromLong wins, patience)
  | first => (second chunk, patience)
  | second length =>
    if worthwhile ≤ max length chunk then (first, max 1 (patience - 1))
    else (single false 0, patience + 1)

/-- Walks through two runs of which the short one has the last element. Each step takes the head of
one run after the chunk of the other that goes before it, which is empty where the walk goes one by
one. Returns the patience, too: the one that was `left` before its last change, if nothing has been
compared since. -/
def walk (lt : α → α → Bool) (way : Way) (left patience : Nat) (pace : Pace) :
    List α → List α → List α × Nat
  | [], long => (long, left)
  | [s], long => (long ++ [s], left)
  | short, [] => (short, left)
  | s :: short, l :: long =>
    -- one by one, the head that goes first has no chunk of the other run in front of it
    if pace.takesLong way (lt l s) then
      match _h : leap way (fun a => !lt l a) (s :: short) with
      | (chunk, rest) =>
        let (pace, next) := pace.next true chunk.length patience
        (walk lt way patience next pace rest long).map (fun zs => chunk ++ l :: zs) id
    else
      match _h : leap way (fun a => lt a s) (l :: long) with
      | (chunk, rest) =>
        let (pace, next) := pace.next false chunk.length patience
        (walk lt way patience next pace short rest).map (fun zs => chunk ++ s :: zs) id
termination_by short long => short.length + long.length
decreasing_by
  · have hl : rest.length ≤ short.length + 1 := by
      have := length_snd_leap_le way (fun a => !lt l a) (s :: short)
      rwa [_h] at this
    simp only [List.length_cons]
    omega
  · have hl : rest.length ≤ long.length + 1 := by
      have := length_snd_leap_le way (fun a => lt a s) (l :: long)
      rwa [_h] at this
    simp only [List.length_cons]
    omega

/-- Walks through two runs of which the long one has the first element and the short one the
last. -/
def interleave (lt : α → α → Bool) (way : Way) (patience : Nat) (short : List α) :
    List α → List α × Nat
  | [] => (short, patience)
  | l :: long =>
    (walk lt way patience patience (.single false 0) short long).map (l :: ·) id

/-- Merges two runs of which the second has the first element and the first the last: the shorter
one into the longer, in the way in which the longer one has the first element. -/
def mergeShorter (lt : α → α → Bool) (patience : Nat) (xs ys : List α) : List α × Nat :=
  if xs.length ≤ ys.length then interleave lt .up patience xs ys
  else
    (interleave (fun a b => lt b a) .down patience ys.reverse xs.reverse).map List.reverse id

/-- Merges a run and the one behind it. Returns the patience that is left, too. -/
def merge (lt : α → α → Bool) (patience : Nat) (xs ys : List α) : List α × Nat :=
  match ys with
  | [] => (xs, patience)
  | y :: _ =>
    -- what does not come after the head of the second run stays where it is
    let (front, xs) := leap .up (fun a => !lt y a) xs
    match xs.getLast? with
    | none => (front ++ ys, patience)
    | some x =>
      -- and so does what does not go before the last of the first
      let (back, ys) := leap .down (fun a => !lt a x) ys.reverse
      (mergeShorter lt patience xs ys.reverse).map
        (fun middle => front ++ middle ++ back.reverse) id

/-! ## Nothing is lost -/

theorem perm_walk (lt : α → α → Bool) (way : Way) (left patience : Nat) (pace : Pace)
    (short long : List α) :
    (walk lt way left patience pace short long).1.Perm (short ++ long) := by
  fun_induction walk lt way left patience pace short long with
  | case1 => exact List.Perm.refl _
  | case2 => exact List.perm_append_comm
  | case3 => rw [List.append_nil]
  | case4 left patience pace s short l long _ _ chunk rest h _ _ _ ih =>
    have hs := (splits_leap way (fun a => !lt l a) (s :: short)).append
    rw [h] at hs
    rw [← hs, List.append_assoc]
    exact (((ih.cons l).trans List.perm_middle.symm).append_left chunk)
  | case5 left patience pace s short l long _ _ chunk rest h _ _ _ ih =>
    have hs := (splits_leap way (fun a => lt a s) (l :: long)).append
    rw [h] at hs
    rw [← hs, List.cons_append]
    refine List.perm_middle.trans (List.Perm.cons s ?_)
    exact (ih.append_left chunk).trans (List.perm_append_comm_assoc chunk short rest)

theorem perm_interleave (lt : α → α → Bool) (way : Way) (patience : Nat) (short long : List α) :
    (interleave lt way patience short long).1.Perm (short ++ long) := by
  cases long with
  | nil => exact (List.append_nil short).symm ▸ List.Perm.refl short
  | cons l long =>
    exact ((perm_walk lt way _ _ _ short long).cons l).trans List.perm_middle.symm

theorem perm_mergeShorter (lt : α → α → Bool) (patience : Nat) (xs ys : List α) :
    (mergeShorter lt patience xs ys).1.Perm (xs ++ ys) := by
  unfold mergeShorter
  split
  · exact perm_interleave lt .up patience xs ys
  · refine (List.reverse_perm _).trans ((perm_interleave _ .down patience _ _).trans ?_)
    rw [← List.reverse_append]
    exact List.reverse_perm _

section

variable {lt : α → α → Bool} {patience : Nat} {xs front rest : List α} {y : α} {ys : List α}

theorem merge_eq_of_none (hf : leap .up (fun a => !lt y a) xs = (front, rest))
    (hn : rest.getLast? = none) :
    merge lt patience xs (y :: ys) = (front ++ y :: ys, patience) := by
  simp only [merge, hf, hn]

theorem merge_eq_of_some (hf : leap .up (fun a => !lt y a) xs = (front, rest)) {x : α}
    (hx : rest.getLast? = some x) {back sy : List α}
    (hb : leap .down (fun a => !lt a x) (y :: ys).reverse = (back, sy)) :
    merge lt patience xs (y :: ys) =
      (mergeShorter lt patience rest sy.reverse).map
        (fun middle => front ++ middle ++ back.reverse) id := by
  simp only [merge, hf, hx, hb]

end

theorem perm_merge (lt : α → α → Bool) (patience : Nat) (xs ys : List α) :
    (merge lt patience xs ys).1.Perm (xs ++ ys) := by
  cases ys with
  | nil => exact (List.append_nil xs).symm ▸ List.Perm.refl xs
  | cons y ys =>
    rcases hf : leap .up (fun a => !lt y a) xs with ⟨front, rest⟩
    have hxs := (splits_leap .up (fun a => !lt y a) xs).append
    rw [hf] at hxs
    cases hn : rest.getLast? with
    | none =>
      rw [List.getLast?_eq_none_iff] at hn
      rw [merge_eq_of_none hf (List.getLast?_eq_none_iff.2 hn), ← hxs, hn, List.append_nil]
    | some x =>
      rcases hb : leap .down (fun a => !lt a x) (y :: ys).reverse with ⟨back, sy⟩
      have hys := (splits_leap .down (fun a => !lt a x) (y :: ys).reverse).append
      rw [hb] at hys
      rw [merge_eq_of_some hf hn hb, ← hxs, ← List.reverse_reverse (y :: ys), ← hys,
        List.reverse_append, List.append_assoc, ← List.append_assoc rest]
      show (front ++ _ ++ back.reverse).Perm _
      rw [List.append_assoc]
      exact ((perm_mergeShorter lt patience rest sy.reverse).append_right _).append_left front

/-! ## The result ascends -/

theorem getLast?_of_append {xs rest front : List α} (h : front ++ rest = xs) {a : α}
    (ha : rest.getLast? = some a) : xs.getLast? = some a := by
  rw [← h, List.getLast?_append, ha]
  rfl

theorem ascending_walk {lt : α → α → Bool} (h : IsOrder lt) (way : Way) (left patience : Nat)
    (pace : Pace) (short long : List α) (hs : Ascending lt short) (hl : Ascending lt long)
    (hlast : ∀ a, short.getLast? = some a → ∀ b ∈ long, lt a b = false) :
    Ascending lt (walk lt way left patience pace short long).1 := by
  fun_induction walk lt way left patience pace short long with
  | case1 => exact hl
  | case2 left patience pace s long =>
    exact h.ascending_middle hl List.Pairwise.nil (hlast s rfl) (by simp)
  | case3 => exact hs
  | case4 left patience pace s short l long _ _ chunk rest hc _ _ _ ih =>
    have hcut := splits_leap way (fun a => !lt l a) (s :: short)
    rw [hc] at hcut
    obtain ⟨hf, hr, _⟩ := hcut.ascending hs
    have hrl := hcut.snd_after h hs (y := l) fun a ha => h.asymm _ _ (by simpa using ha)
    refine h.ascending_middle hf (ih hr (List.pairwise_cons.1 hl).2 fun a ha b hb => ?_)
      (hcut.fst_before h hs fun a ha => by simpa using ha) fun z hz => ?_
    · exact hlast a (getLast?_of_append hcut.append ha) b (List.mem_cons_of_mem l hb)
    · rcases List.mem_append.1 ((perm_walk ..).mem_iff.1 hz) with hz | hz
      · exact hrl z hz
      · exact (List.pairwise_cons.1 hl).1 z hz
  | case5 left patience pace s short l long _ _ chunk rest hc _ _ _ ih =>
    have hcut := splits_leap way (fun a => lt a s) (l :: long)
    rw [hc] at hcut
    obtain ⟨hf, hr, _⟩ := hcut.ascending hl
    have hrs := hcut.snd_after h hl (y := s) fun a ha => ha
    refine h.ascending_middle hf (ih (List.pairwise_cons.1 hs).2 hr fun a ha b hb => ?_)
      (hcut.fst_before h hl fun a ha => h.asymm _ _ ha) fun z hz => ?_
    · exact hlast a (getLast?_of_append (show [s] ++ short = s :: short from rfl) ha) b
        (hcut.append ▸ List.mem_append_right chunk hb)
    · rcases List.mem_append.1 ((perm_walk ..).mem_iff.1 hz) with hz | hz
      · exact (List.pairwise_cons.1 hs).1 z hz
      · exact hrs z hz

theorem ascending_interleave {lt : α → α → Bool} (h : IsOrder lt) (way : Way) (patience : Nat)
    {short long : List α} (hs : Ascending lt short) (hl : Ascending lt long)
    (hhead : ∀ b, long.head? = some b → ∀ a ∈ short, lt a b = false)
    (hlast : ∀ a, short.getLast? = some a → ∀ b ∈ long, lt a b = false) :
    Ascending lt (interleave lt way patience short long).1 := by
  cases long with
  | nil => exact hs
  | cons l long =>
    obtain ⟨hll, hl⟩ := List.pairwise_cons.1 hl
    refine List.pairwise_cons.2 ⟨fun z hz => ?_, ascending_walk h way _ _ _ short long hs hl
      fun a ha b hb => hlast a ha b (List.mem_cons_of_mem l hb)⟩
    rcases List.mem_append.1 ((perm_walk ..).mem_iff.1 hz) with hz | hz
    · exact hhead l rfl z hz
    · exact hll z hz

theorem ascending_mergeShorter {lt : α → α → Bool} (h : IsOrder lt) (patience : Nat)
    {xs ys : List α} (hx : Ascending lt xs) (hy : Ascending lt ys)
    (hhead : ∀ b, ys.head? = some b → ∀ a ∈ xs, lt a b = false)
    (hlast : ∀ a, xs.getLast? = some a → ∀ b ∈ ys, lt a b = false) :
    Ascending lt (mergeShorter lt patience xs ys).1 := by
  unfold mergeShorter
  split
  · exact ascending_interleave h .up patience hx hy hhead hlast
  · refine ascending_flip_reverse.1 ?_
    refine (List.reverse_reverse _).symm ▸ ascending_interleave h.flip .down patience
      (ascending_flip_reverse.2 hy) (ascending_flip_reverse.2 hx) (fun b hb a ha => ?_)
      fun a ha b hb => ?_
    · exact hlast b (List.head?_reverse ▸ hb) a (List.mem_reverse.1 ha)
    · exact hhead a (List.getLast?_reverse ▸ ha) b (List.mem_reverse.1 hb)

theorem ascending_merge {lt : α → α → Bool} (h : IsOrder lt) (patience : Nat) {xs ys : List α}
    (hx : Ascending lt xs) (hy : Ascending lt ys) :
    Ascending lt (merge lt patience xs ys).1 := by
  cases ys with
  | nil => exact hx
  | cons y ys =>
    rcases hf : leap .up (fun a => !lt y a) xs with ⟨front, rest⟩
    have hcut := splits_leap .up (fun a => !lt y a) xs
    rw [hf] at hcut
    obtain ⟨hfront, hrest, hfr⟩ := hcut.ascending hx
    have hfy := hcut.fst_before h hx (y := y) fun a ha => by simpa using ha
    have hry := hcut.snd_after h hx (y := y) fun a ha => h.asymm _ _ (by simpa using ha)
    have hys := (List.pairwise_cons.1 hy).1
    cases hn : rest.getLast? with
    | none =>
      rw [merge_eq_of_none hf hn]
      exact h.ascending_middle hfront (List.pairwise_cons.1 hy).2 hfy hys
    | some x =>
      rcases hb : leap .down (fun a => !lt a x) (y :: ys).reverse with ⟨back, sy⟩
      have hdown := ascending_flip_reverse.2 hy
      have hcut' := splits_leap .down (fun a => !lt a x) (y :: ys).reverse
      rw [hb] at hcut'
      obtain ⟨hback, hsy, hbs⟩ := hcut'.ascending hdown
      have hxb := hcut'.fst_before h.flip hdown (y := x) fun a ha => by simpa using ha
      have hsx := hcut'.snd_after h.flip hdown (y := x) fun a ha => h.asymm _ _ (by simpa using ha)
      -- all of the first run is up to `x`, and all of the second from `y` on
      have hyb (b : α) (hm : b ∈ back ++ sy) : lt b y = false := by
        rcases List.mem_cons.1 (List.mem_reverse.1 (hcut'.append ▸ hm)) with rfl | hm
        · exact h.irrefl b
        · exact hys b hm
      have hrx := h.of_getLast hrest (y := x) fun a ha => by
        obtain rfl : x = a := Option.some.inj (hn ▸ ha)
        exact h.irrefl x
      rw [merge_eq_of_some hf hn hb]
      refine List.pairwise_append.2 ⟨List.pairwise_append.2 ⟨hfront,
        ascending_mergeShorter h patience hrest (List.pairwise_reverse.2 hsy) (fun b hb a ha => ?_)
          fun a ha b hb => ?_, fun a ha b hb => ?_⟩, List.pairwise_reverse.2 hback,
        fun a ha b hb => ?_⟩
      · have hy' := getLast?_of_append hcut'.append (List.head?_reverse ▸ hb)
        rw [List.getLast?_reverse] at hy'
        obtain rfl : y = b := Option.some.inj hy'
        exact hry a ha
      · obtain rfl : x = a := Option.some.inj (hn ▸ ha)
        exact hsx b (List.mem_reverse.1 hb)
      · rcases List.mem_append.1 ((perm_mergeShorter ..).mem_iff.1 hb) with hb | hb
        · exact hfr a ha b hb
        · exact h.trans _ _ _ (hfy a ha)
            (hyb b (List.mem_append_right _ (List.mem_reverse.1 hb)))
      · have hb := List.mem_reverse.1 hb
        rcases List.mem_append.1 ha with ha | ha
        · exact h.trans _ _ _ (hfy a ha) (hyb b (List.mem_append_left _ hb))
        · rcases List.mem_append.1 ((perm_mergeShorter ..).mem_iff.1 ha) with ha | ha
          · exact h.trans _ _ _ (hrx a ha) (hxb b hb)
          · exact hbs b hb a (List.mem_reverse.1 ha)

end ChainTypings.Sorting
