import ChainTypings.Import.Ledger

/-!
# What a ledger holds

A ledger made from definition files has a bucket for every name that goes somewhere, and recording
names keeps it so (`HasBuckets`). Hence each bucket holds what it held and those of the recorded
names that go to it (`mem_names_recordAll`).
-/

namespace ChainTypings.Ledger

/-- Every bucket to which a name may go is there. -/
def HasBuckets (l : Ledger) : Prop :=
  ∀ b ∈ bucketNames l.definitions, (l.buckets.lookup b).isSome = true

theorem mem_bucketNames {definitions : Definitions} {name b : String}
    (h : bucketOf? definitions name = some b) : b ∈ bucketNames definitions := by
  rw [bucketNames, List.mem_eraseDups, List.mem_append]
  unfold bucketOf? at h
  split at h
  · next c hc =>
    obtain rfl := Option.some.inj h
    exact .inl (List.mem_map_of_mem (Category.mem_all c))
  · obtain ⟨d, hd, rfl⟩ := Option.map_eq_some_iff.1 h
    exact .inr (List.mem_map_of_mem (List.mem_of_find?_eq_some hd))

theorem lookup_map_pair {b : String} {bs : List String} (h : b ∈ bs) :
    (bs.map fun b => (b, ([] : List String))).lookup b = some [] := by
  induction bs with
  | nil => exact absurd h List.not_mem_nil
  | cons c cs ih =>
    rw [List.map_cons, List.lookup_cons]
    by_cases hc : b = c
    · simp [hc]
    · have hb : (b == c) = false := by simpa using hc
      rw [hb]
      exact ih ((List.mem_cons.1 h).resolve_left hc)

theorem hasBuckets_empty (definitions : Definitions) (ignored : List String) :
    (empty definitions ignored).HasBuckets := by
  intro b hb
  have hb : b ∈ bucketNames definitions := hb
  rw [empty, lookup_map_pair hb]
  rfl

theorem names_empty (definitions : Definitions) (ignored : List String) (b : String) :
    (empty definitions ignored).names b = [] := by
  by_cases hb : b ∈ bucketNames definitions
  · rw [names, empty, lookup_map_pair hb]
    rfl
  · have hnone :
        ((bucketNames definitions).map fun b => (b, ([] : List String))).lookup b = none := by
      rw [List.lookup_eq_none_iff]
      intro p hp
      obtain ⟨c, hc, rfl⟩ := List.mem_map.1 hp
      have hbc : b ≠ c := by
        rintro rfl
        exact hb hc
      simpa using hbc
    rw [names, empty, hnone]
    rfl

variable {l : Ledger}

theorem definitions_record (l : Ledger) (name : String) :
    (l.record name).definitions = l.definitions := by
  unfold record
  split <;> rfl

theorem HasBuckets.record (h : l.HasBuckets) (name : String) : (l.record name).HasBuckets := by
  intro b hb
  rw [definitions_record] at hb
  unfold Ledger.record
  split
  · next bucket hbucket =>
    have := lookup_mapValues (fun k ns => if k = bucket then addName name ns else ns) l.buckets b
    rw [addTo, this, Option.isSome_map]
    exact h b hb
  · exact h b hb

/-- Recording a name adds it to the bucket it goes to. -/
theorem mem_names_record (h : l.HasBuckets) (name n b : String) :
    n ∈ (l.record name).names b ↔
      n ∈ l.names b ∨ n = name ∧ bucketOf? l.definitions name = some b := by
  unfold Ledger.record
  cases hbucket : bucketOf? l.definitions name with
  | none => simp
  | some bucket =>
    have hthere : (l.buckets.lookup bucket).isSome = true := h bucket (mem_bucketNames hbucket)
    show n ∈ (l.addTo bucket name).names b ↔ _
    rw [names_addTo]
    -- the bucket that the name goes to is there, and no other one changes
    by_cases hb : b = bucket
    · rw [if_pos ⟨hb, hthere⟩, mem_addName, hb]
      simp
    · rw [if_neg fun hc => hb hc.1]
      simp [Ne.symm hb]

theorem definitions_recordAll (l : Ledger) (names : List String) :
    (l.recordAll names).definitions = l.definitions := by
  induction names generalizing l with
  | nil => rfl
  | cons name names ih =>
    show ((l.record name).recordAll names).definitions = l.definitions
    rw [ih, definitions_record]

theorem ignored_recordAll (l : Ledger) (names : List String) :
    (l.recordAll names).ignored = l.ignored := by
  have record : ∀ (l : Ledger) (name : String), (l.record name).ignored = l.ignored := by
    intro l name
    unfold Ledger.record
    split <;> rfl
  induction names generalizing l with
  | nil => rfl
  | cons name names ih =>
    show ((l.record name).recordAll names).ignored = l.ignored
    rw [ih, record]

theorem HasBuckets.recordAll (h : l.HasBuckets) (names : List String) :
    (l.recordAll names).HasBuckets := by
  induction names generalizing l with
  | nil => exact h
  | cons name names ih => exact ih (h.record name)

/-- A bucket holds what it held and the recorded names that go to it. -/
theorem mem_names_recordAll (h : l.HasBuckets) (names : List String) (n b : String) :
    n ∈ (l.recordAll names).names b ↔
      n ∈ l.names b ∨ n ∈ names ∧ bucketOf? l.definitions n = some b := by
  induction names generalizing l with
  | nil => simp [recordAll]
  | cons name names ih =>
    show n ∈ ((l.record name).recordAll names).names b ↔ _
    rw [ih (h.record name), mem_names_record h, definitions_record, List.mem_cons]
    constructor
    · rintro ((hn | ⟨rfl, hb⟩) | ⟨hn, hb⟩)
      · exact .inl hn
      · exact .inr ⟨.inl rfl, hb⟩
      · exact .inr ⟨.inr hn, hb⟩
    · rintro (hn | ⟨rfl | hn, hb⟩)
      · exact .inl (.inl hn)
      · exact .inl (.inr ⟨rfl, hb⟩)
      · exact .inr ⟨hn, hb⟩

end ChainTypings.Ledger
