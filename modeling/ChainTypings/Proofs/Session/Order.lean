import ChainTypings.Proofs.Import.Lines
import ChainTypings.Proofs.Session.WriteOnly

/-!
# The order of calls

The names that calls record are in the order in which they were first mentioned, so the buckets of a
ledger do depend on the order of the calls. Which names they hold does not (`mem_names_afterAll`),
and nor do the import lines: a session that makes certain calls, in any order and any number of
times, ends each of them as on a new ledger and leaves the same lines (`lines_afterAll_congr`).
-/

namespace ChainTypings

namespace Ledger

theorem ignored_afterAll (l : Ledger) (calls : List Call) :
    (l.afterAll calls).ignored = l.ignored := by
  induction calls generalizing l with
  | nil => rfl
  | cons c calls ih => exact (ih (l.after c)).trans (l.ignored_after c)

/-- A session records the names of its calls, each of which depends on nothing that is held. -/
theorem afterAll_eq (l : Ledger) (calls : List Call) :
    l.afterAll calls = l.recordAll (calls.flatMap fun c => (c.trail l.ignored).names) := by
  induction calls generalizing l with
  | nil => rfl
  | cons c calls ih =>
    show (l.after c).afterAll calls = _
    rw [ih, l.ignored_after, after_eq, ← recordAll_append, List.flatMap_cons]

/-- After a session a bucket holds what it held and those names of the calls that go to it. -/
theorem mem_names_afterAll {l : Ledger} (h : l.HasBuckets) (calls : List Call) (n b : String) :
    n ∈ (l.afterAll calls).names b ↔ n ∈ l.names b ∨
      (∃ c ∈ calls, n ∈ (c.trail l.ignored).names) ∧ bucketOf? l.definitions n = some b := by
  rw [afterAll_eq, mem_names_recordAll h, List.mem_flatMap]

end Ledger

namespace Call

/-- Whatever calls were made before, a call ends as on a new ledger. -/
theorem outcome_afterAll (c : Call) (l : Ledger) (before : List Call) :
    c.outcome (l.afterAll before) = c.outcome l := by
  rw [c.outcome_eq fun _ => Iff.rfl, c.outcome_eq fun _ => Iff.rfl, l.ignored_afterAll]

/-- If each of the calls succeeds on a new ledger, a session of these calls, in any order and any
number of times, succeeds in each of them with what it gives on a new ledger, and leaves the import
lines that they leave in any other order. -/
theorem lines_afterAll_congr (definitions : Definitions) (ignored : List String)
    (extra : List ImportDef) {calls session : List Call}
    (hsucceeds : ∀ c ∈ calls, ∃ v, c.outcome (.empty definitions ignored) = .ok v)
    (hsame : ∀ c, c ∈ session ↔ c ∈ calls) :
    (∀ before c later, session = before ++ c :: later →
      ∃ v, c.outcome (.empty definitions ignored) = .ok v ∧
        c.outcome ((Ledger.empty definitions ignored).afterAll before) = .ok v) ∧
    ImportDef.lines ((Ledger.empty definitions ignored).afterAll session) extra =
      ImportDef.lines ((Ledger.empty definitions ignored).afterAll calls) extra := by
  constructor
  · intro before c later hsession
    have hc : c ∈ session := by simp [hsession]
    obtain ⟨v, hv⟩ := hsucceeds c ((hsame c).1 hc)
    exact ⟨v, hv, (c.outcome_afterAll _ before).trans hv⟩
  · refine ImportDef.lines_congr ?_ (fun b n => ?_) extra
    · rw [Ledger.afterAll_eq, Ledger.afterAll_eq, Ledger.definitions_recordAll,
        Ledger.definitions_recordAll]
    · have hbuckets := Ledger.hasBuckets_empty definitions ignored
      rw [Ledger.mem_names_afterAll hbuckets, Ledger.mem_names_afterAll hbuckets]
      simp only [hsame]

/-- Calls of every kind, with names of the library and of a definition file. -/
def ballotCalls : List Call :=
  [.record [some "BTreeMap<u8, Ballot>", none],
   .label "u32" (some "Index"),
   .format {} .oneLine (.shape (.leaf { tag := .plain, type := "Ballot" })) none,
   .declare {} (.single { tag := .vec, type := "Vec<Bytes>", lookupName := .str "Urn" }
    (.leaf { tag := .plain, type := "Bytes" }))]

/-- Made in the opposite order and then once more, they leave the same lines. -/
theorem lines_ballotCalls :
    (∀ c ∈ ballotCalls, ∃ v, c.outcome (.empty [("./own", ["Ballot"])] ["Urn"]) = .ok v) ∧
      (∀ c, c ∈ ballotCalls.reverse ++ ballotCalls ↔ c ∈ ballotCalls) ∧
      ImportDef.lines ((Ledger.empty [("./own", ["Ballot"])] ["Urn"]).afterAll
          (ballotCalls.reverse ++ ballotCalls)) [⟨"./extra", ["Ballot"]⟩] =
        ImportDef.lines ((Ledger.empty [("./own", ["Ballot"])] ["Urn"]).afterAll ballotCalls)
          [⟨"./extra", ["Ballot"]⟩] := by
  have hsucceeds : ∀ c ∈ ballotCalls,
      ∃ v, c.outcome (.empty [("./own", ["Ballot"])] ["Urn"]) = .ok v := by
    have hall : ∀ c ∈ ballotCalls,
        (c.outcome (.empty [("./own", ["Ballot"])] ["Urn"])).toOption.isSome = true := by
      decide +kernel
    exact fun c hc => exists_ok_of_isSome (hall c hc)
  have hsame : ∀ c, c ∈ ballotCalls.reverse ++ ballotCalls ↔ c ∈ ballotCalls := by
    intro c
    rw [List.mem_append, List.mem_reverse, or_self]
  exact ⟨hsucceeds, hsame, (lines_afterAll_congr _ _ _ hsucceeds hsame).2⟩

end Call

end ChainTypings
