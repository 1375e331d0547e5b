import ChainTypings.Proofs.Session.Invariant

/-!
# Calls only write

What a call gives depends on the ledger only through the names that the document declares itself:
on two ledgers that agree on those it ends alike, whatever else they hold. And a second run of the
call finds all its names held (`Holds`), so it ends as the first did and changes nothing, also
where the first run failed half way.
-/

namespace ChainTypings.Ledger

/-! ## Names that are held already -/

/-- Every bucket to which the name goes holds it. -/
def Holds (l : Ledger) (n : String) : Prop :=
  ∀ b, bucketOf? l.definitions n = some b → ∀ e ∈ l.buckets, e.1 = b → n ∈ e.2

theorem addName_of_mem {n : String} {ns : List String} (h : n ∈ ns) : addName n ns = ns :=
  if_pos (by simpa using h)

/-- Recording a name that is held changes nothing. -/
theorem record_of_holds {l : Ledger} {n : String} (h : l.Holds n) : l.record n = l := by
  unfold record
  cases hb : bucketOf? l.definitions n with
  | none => rfl
  | some bucket =>
    -- the bucket that would take the name holds it, and no other bucket is touched
    have hbuckets : ∀ e ∈ l.buckets,
        (e.1, if e.1 = bucket then addName n e.2 else e.2) = e := by
      intro e he
      split
      · next hk => rw [addName_of_mem (h bucket hb e he hk)]
      · rfl
    show l.addTo bucket n = l
    unfold addTo
    rw [List.map_congr_left hbuckets, List.map_id']

theorem holds_record (l : Ledger) (n : String) : (l.record n).Holds n := by
  intro b hb e he hbe
  rw [definitions_record] at hb
  unfold record at he
  rw [hb] at he
  obtain ⟨e', _, rfl⟩ := List.mem_map.1 he
  dsimp only at hbe ⊢
  rw [if_pos hbe, mem_addName]
  exact .inr rfl

/-- A name that is held is held for good. -/
theorem Holds.record {l : Ledger} {n : String} (h : l.Holds n) (m : String) :
    (l.record m).Holds n := by
  intro b hb e he hbe
  rw [definitions_record] at hb
  unfold Ledger.record at he
  split at he
  · obtain ⟨e', he', rfl⟩ := List.mem_map.1 he
    have hn : n ∈ e'.2 := h b hb e' he' hbe
    dsimp only
    split
    · exact mem_addName.2 (.inl hn)
    · exact hn
  · exact h b hb e he hbe

theorem Holds.recordAll {l : Ledger} {n : String} (h : l.Holds n) (names : List String) :
    (l.recordAll names).Holds n := by
  induction names generalizing l with
  | nil => exact h
  | cons m names ih => exact ih (h.record m)

theorem holds_recordAll (l : Ledger) {n : String} {names : List String} (h : n ∈ names) :
    (l.recordAll names).Holds n := by
  induction names generalizing l with
  | nil => exact absurd h List.not_mem_nil
  | cons m names ih =>
    rcases List.mem_cons.1 h with rfl | h
    · exact (l.holds_record n).recordAll names
    · exact ih (l.record m) h

theorem recordAll_of_holds {l : Ledger} {names : List String} (h : ∀ n ∈ names, l.Holds n) :
    l.recordAll names = l := by
  induction names with
  | nil => rfl
  | cons m names ih =>
    show (l.record m).recordAll names = l
    rw [record_of_holds (h m (by simp))]
    exact ih fun n hn => h n (List.mem_cons_of_mem _ hn)

/-- Names recorded twice are as good as recorded once. -/
theorem recordAll_recordAll (l : Ledger) (names : List String) :
    (l.recordAll names).recordAll names = l.recordAll names :=
  recordAll_of_holds fun _ hn => l.holds_recordAll hn

end ChainTypings.Ledger

namespace ChainTypings.Call

/-- The outcome of a call is that of its trail. -/
theorem outcome_eq (c : Call) {l : Ledger} {ignored : List String}
    (h : ∀ n, n ∈ l.ignored ↔ n ∈ ignored) : c.outcome l = (c.trail ignored).outcome := by
  rw [outcome, c.follows_recording ignored l h]

/-- A call ends alike on all ledgers that ignore the same names, and when it is made again it ends
as it did before and leaves the ledger as it is. -/
theorem outcome_eq_of_ignored (c : Call) (l l' : Ledger)
    (h : ∀ n, n ∈ l.ignored ↔ n ∈ l'.ignored) :
    c.outcome l = c.outcome l' ∧ c.outcome (l.after c) = c.outcome l ∧
      (l.after c).after c = l.after c := by
  refine ⟨?_, ?_, ?_⟩
  · rw [c.outcome_eq h, c.outcome_eq fun _ => Iff.rfl]
  · rw [c.outcome_eq fun _ => Iff.rfl, c.outcome_eq fun _ => Iff.rfl, l.ignored_after]
  · rw [(l.after c).after_eq, l.ignored_after, l.after_eq, Ledger.recordAll_recordAll]

/-- The ledgers of two documents that declare `Era`: one new and without definition files, one
with a definition file and names in it. -/
def eraLedgers : Ledger × Ledger :=
  (.empty [] ["Era"],
   (Ledger.empty [("./balances", ["Balance"])] ["Era"]).afterAll
    [.record [some "Balance", some "Vec", none], .label "u32" (some "Index")])

/-- A call that names what is held, what is ignored and what has no category. -/
def eraCall : Call :=
  .format {} .oneLine
    (.shape (.group { tag := .tuple, type := "(Balance,Era,u32)" }
      [.leaf { tag := .plain, type := "Balance" }, .leaf { tag := .plain, type := "Era" },
       .leaf { tag := .plain, type := "u32", typeName := .str "Index" }])) none

theorem outcome_eq_eraLedgers :
    (∀ n, n ∈ eraLedgers.1.ignored ↔ n ∈ eraLedgers.2.ignored) ∧
      eraCall.outcome eraLedgers.1 = eraCall.outcome eraLedgers.2 ∧
      eraCall.outcome (eraLedgers.1.after eraCall) = eraCall.outcome eraLedgers.1 ∧
      (eraLedgers.1.after eraCall).after eraCall = eraLedgers.1.after eraCall := by
  have hignored : ∀ n, n ∈ eraLedgers.1.ignored ↔ n ∈ eraLedgers.2.ignored := by
    intro n
    have hafter : eraLedgers.2.ignored = ["Era"] :=
      (((Ledger.Kept.empty [("./balances", ["Balance"])] ["Era"]).afterAll _).ignored_eq)
    rw [hafter]
    rfl
  exact ⟨hignored, outcome_eq_of_ignored eraCall eraLedgers.1 eraLedgers.2 hignored⟩

end ChainTypings.Call
