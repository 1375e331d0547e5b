import ChainTypings.Proofs.Document.Declaring
import ChainTypings.Proofs.Session.Rendering

/-!
# The ledger over a session

However many calls are made on a ledger, and whether or not they succeed, it stays in order
(`Ledger.Kept`): its buckets are the ones it was made with, none of them holds a name twice, no
name is held that the document declares itself, and a name is held only where it is imported from.
And nothing is ever taken away or moved: what a bucket holds is a prefix of what it holds later.

Recording one name keeps the order (`Kept.record`) and a call only records names, so the invariant
goes from call to call (`Kept.after`) and through the session (`Kept.afterAll`).
-/

namespace ChainTypings

namespace Call

theorem clean_trail (ignored : List String) (c : Call) :
    (c.trail ignored).AllNames (· ∉ ignored) := by
  cases c with
  | record types =>
    have htypes : (Import.mentionsAll ignored (types.filterMap id)).AllNames (· ∉ ignored) :=
      .forEach fun _ _ => Import.allNames_mentions _ _
    exact htypes.andThen fun _ => .done _
  | label type typeName => exact (Scope.clean_named ⟨{}, ignored⟩ _ _).andThen fun _ => .done _
  | format registry layout input hint =>
    refine Trail.AllNames.andThen ?_ fun _ => .done _
    refine Trail.AllNames.andThen ?_ fun _ => .done _
    let s : Scope := ⟨registry, ignored⟩
    show (s.expression layout input hint).AllNames (· ∉ ignored)
    cases input with
    | shape shape => exact s.clean_render shape hint
    | text t =>
      unfold Scope.expression
      dsimp only
      split
      · exact .done _
      · split
        · exact s.clean_render _ hint
        · exact .fail _
  | declare registry shape =>
    exact (Declaration.clean_ofShape ⟨registry, ignored⟩ shape).andThen fun _ => .done _

end Call

namespace Ledger

/-! ## One call -/

/-- The ledger after a call holds the names that the call mentions as well. -/
theorem after_eq (l : Ledger) (c : Call) : l.after c = l.recordAll (c.trail l.ignored).names := by
  rw [after, c.follows_recording l.ignored l fun _ => Iff.rfl]

theorem ignored_after (l : Ledger) (c : Call) : (l.after c).ignored = l.ignored := by
  rw [after_eq, ignored_recordAll]

/-! ## What is held stays -/

theorem prefix_addName (name : String) (ns : List String) : ns <+: addName name ns := by
  unfold addName
  split
  · exact List.prefix_rfl
  · exact List.prefix_append _ _

theorem prefix_names_record (l : Ledger) (name b : String) :
    l.names b <+: (l.record name).names b := by
  unfold record
  split
  · rw [names_addTo]
    split
    · exact prefix_addName _ _
    · exact List.prefix_rfl
  · exact List.prefix_rfl

theorem prefix_names_recordAll (l : Ledger) (names : List String) (b : String) :
    l.names b <+: (l.recordAll names).names b := by
  induction names generalizing l with
  | nil => exact List.prefix_rfl
  | cons name names ih => exact (l.prefix_names_record name b).trans (ih (l.record name))

theorem prefix_names_afterAll (l : Ledger) (calls : List Call) (b : String) :
    l.names b <+: (l.afterAll calls).names b := by
  induction calls generalizing l with
  | nil => exact List.prefix_rfl
  | cons c calls ih =>
    have hc : l.names b <+: (l.after c).names b := by
      rw [after_eq]
      exact l.prefix_names_recordAll _ b
    exact hc.trans (ih (l.after c))

theorem afterAll_append (l : Ledger) (before later : List Call) :
    l.afterAll (before ++ later) = (l.afterAll before).afterAll later :=
  List.foldl_append

/-! ## The order of a ledger -/

/-- A ledger in order: made with these definition files and ignored names, and nothing in it out
of place. -/
structure Kept (definitions : Definitions) (ignored : List String) (l : Ledger) : Prop where
  definitions_eq : l.definitions = definitions
  ignored_eq : l.ignored = ignored
  /-- The buckets are the categories and the files. -/
  buckets_eq : l.buckets.map (·.1) = bucketNames definitions
  nodup : ∀ b, (l.names b).Nodup
  not_ignored : ∀ b, ∀ n ∈ l.names b, n ∉ ignored
  /-- A name is in the bucket of its category, or else of the first file that lists it. -/
  placed : ∀ b, ∀ n ∈ l.names b,
    (Category.of? n).map Category.name = some b ∨
      Category.of? n = none ∧ fileOf? definitions n = some b

theorem bucketOf?_eq_some {definitions : Definitions} {n b : String} :
    bucketOf? definitions n = some b ↔
      (Category.of? n).map Category.name = some b ∨
        Category.of? n = none ∧ fileOf? definitions n = some b := by
  unfold bucketOf?
  cases Category.of? n <;> simp

namespace Kept

variable {definitions : Definitions} {ignored : List String} {l : Ledger}

theorem empty (definitions : Definitions) (ignored : List String) :
    Kept definitions ignored (.empty definitions ignored) where
  definitions_eq := rfl
  ignored_eq := rfl
  buckets_eq := by simp [Ledger.empty, Function.comp_def]
  nodup b := by simp [names_empty]
  not_ignored b n hn := absurd hn (by simp [names_empty])
  placed b n hn := absurd hn (by simp [names_empty])

theorem hasBuckets (h : Kept definitions ignored l) : l.HasBuckets := by
  intro b hb
  rw [h.definitions_eq, ← h.buckets_eq] at hb
  obtain ⟨e, he, rfl⟩ := List.mem_map.1 hb
  -- the entry that is looked up is there, whichever entry of that key comes first
  cases hl : l.buckets.lookup e.1 with
  | some ns => rfl
  | none =>
    rw [List.lookup_eq_none_iff] at hl
    exact absurd (hl e he) (by simp)

theorem record (h : Kept definitions ignored l) {name : String} (hname : name ∉ ignored) :
    Kept definitions ignored (l.record name) where
  definitions_eq := (definitions_record l name).trans h.definitions_eq
  ignored_eq := (l.ignored_recordAll [name]).trans h.ignored_eq
  buckets_eq := by
    rw [← h.buckets_eq]
    unfold Ledger.record
    split
    · simp [addTo, Function.comp_def]
    · rfl
  nodup b := by
    unfold Ledger.record
    split
    · rw [names_addTo]
      split
      · exact nodup_addName (h.nodup b)
      · exact h.nodup b
    · exact h.nodup b
  not_ignored b n hn := by
    rcases (mem_names_record h.hasBuckets name n b).1 hn with hn | ⟨rfl, _⟩
    · exact h.not_ignored b n hn
    · exact hname
  placed b n hn := by
    rcases (mem_names_record h.hasBuckets name n b).1 hn with hn | ⟨rfl, hb⟩
    · exact h.placed b n hn
    · rw [h.definitions_eq] at hb
      exact bucketOf?_eq_some.1 hb

theorem recordAll (h : Kept definitions ignored l) {names : List String}
    (hnames : ∀ n ∈ names, n ∉ ignored) : Kept definitions ignored (l.recordAll names) := by
  induction names generalizing l with
  | nil => exact h
  | cons name names ih =>
    have hname := h.record (hnames name (by simp))
    exact ih hname fun n hn => hnames n (List.mem_cons_of_mem _ hn)

/-- A call keeps a ledger in order, whether it succeeds or fails. -/
theorem after (h : Kept definitions ignored l) (c : Call) :
    Kept definitions ignored (l.after c) := by
  rw [after_eq, h.ignored_eq]
  exact h.recordAll (c.clean_trail ignored)

theorem afterAll (h : Kept definitions ignored l) (calls : List Call) :
    Kept definitions ignored (l.afterAll calls) := by
  induction calls generalizing l with
  | nil => exact h
  | cons c calls ih => exact ih (h.after c)

/-- No name is held in two buckets. -/
theorem bucket_unique (h : Kept definitions ignored l) {n b b' : String} (hb : n ∈ l.names b)
    (hb' : n ∈ l.names b') : b = b' := by
  have hb := bucketOf?_eq_some.2 (h.placed b n hb)
  have hb' := bucketOf?_eq_some.2 (h.placed b' n hb')
  exact Option.some.inj (hb.symm.trans hb')

end Kept

/-- Over a session a ledger is always in order, no name is in two buckets, and every bucket holds
what it held at any earlier time, in the same order and before anything else. -/
theorem session_kept (definitions : Definitions) (ignored : List String)
    (before later : List Call) :
    let earlier := (empty definitions ignored).afterAll before
    let now := (empty definitions ignored).afterAll (before ++ later)
    (∀ b, earlier.names b <+: now.names b) ∧ Kept definitions ignored now ∧
      ∀ n b b', n ∈ now.names b → n ∈ now.names b' → b = b' := by
  intro earlier now
  have hnow : Kept definitions ignored now := (Kept.empty definitions ignored).afterAll _
  refine ⟨?_, hnow, fun n b b' hb hb' => hnow.bucket_unique hb hb'⟩
  intro b
  show earlier.names b <+: ((empty definitions ignored).afterAll (before ++ later)).names b
  rw [afterAll_append]
  exact earlier.prefix_names_afterAll later b

end Ledger

end ChainTypings
