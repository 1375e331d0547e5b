import ChainTypings.Proofs.Import.Mentioned
import ChainTypings.Proofs.Session.WriteOnly

/-!
# What recording a compound type adds

Recording the text of a canonical expression takes it apart down to its names: the ledger gains the
words of the expression and the tag of each compound on the way, but for those it ignores, and
nothing else (`Call.record_adds_mentioned`). Where each of them goes is said without a search
(`Ledger.GoesTo`): to the category whose table lists it, or to the first definition file that does.
-/

namespace ChainTypings

open Text Import

/-! ## Where a name goes -/

namespace Category

/-- No name is in the tables of two categories. -/
theorem of?_eq_some_iff {name : String} {c : Category} : of? name = some c ↔ name ∈ c.members := by
  have hall : ∀ c ∈ all, ∀ n ∈ c.members, of? n = some c := by decide +kernel
  exact ⟨mem_members_of_of?, hall c c.mem_all name⟩

theorem of?_eq_none_iff {name : String} : of? name = none ↔ ∀ c : Category, name ∉ c.members := by
  rw [Option.eq_none_iff_forall_ne_some]
  exact forall_congr' fun c => not_congr of?_eq_some_iff

end Category

namespace Ledger

/-- The bucket that a name goes to: the category that lists it or else, if none does, the first
definition file that lists it. -/
inductive GoesTo (definitions : Definitions) (name : String) : String → Prop
  | category {c : Category} : name ∈ c.members → GoesTo definitions name c.name
  | file {before after : Definitions} {file : String} {names : List String} :
      (∀ c : Category, name ∉ c.members) → definitions = before ++ (file, names) :: after →
      (∀ d ∈ before, name ∉ d.2) → name ∈ names → GoesTo definitions name file

theorem fileOf?_eq_some_iff {definitions : Definitions} {name file : String} :
    fileOf? definitions name = some file ↔ ∃ before names after,
      definitions = before ++ (file, names) :: after ∧ (∀ d ∈ before, name ∉ d.2) ∧
        name ∈ names := by
  rw [fileOf?, Option.map_eq_some_iff]
  simp only [List.find?_eq_some_iff_append]
  constructor
  · rintro ⟨⟨_, names⟩, ⟨hmem, before, after, rfl, hbefore⟩, rfl⟩
    exact ⟨before, names, after, rfl, by simpa using hbefore, by simpa using hmem⟩
  · rintro ⟨before, names, after, rfl, hbefore, hmem⟩
    exact ⟨(file, names), ⟨by simpa using hmem, before, after, rfl, by simpa using hbefore⟩, rfl⟩

theorem goesTo_iff {definitions : Definitions} {name b : String} :
    GoesTo definitions name b ↔ bucketOf? definitions name = some b := by
  rw [bucketOf?_eq_some, Option.map_eq_some_iff, Category.of?_eq_none_iff, fileOf?_eq_some_iff]
  simp only [Category.of?_eq_some_iff]
  constructor
  · rintro (hc | ⟨hnone, hsplit, hbefore, hmem⟩)
    · exact .inl ⟨_, hc, rfl⟩
    · exact .inr ⟨hnone, _, _, _, hsplit, hbefore, hmem⟩
  · rintro (⟨c, hc, rfl⟩ | ⟨hnone, before, names, after, hsplit, hbefore, hmem⟩)
    · exact .category hc
    · exact .file hnone hsplit hbefore hmem

end Ledger

/-! ## Taking a text apart -/

namespace TypeExpr

variable {e : TypeExpr} {ignored : List String}

/-- The text of a canonical expression mentions the names of the expression. -/
theorem mentionsOf_text (h : e.Canonical) (hi : ∀ n ∈ ignored, IsWord n) :
    mentionsOf ignored e.text = .noting ignored e.mentioned () := by
  cases e with
  | unit =>
    -- its shape has another text, so it is taken apart by hand
    have hunit : mentions ignored (print .unit) = .noting ignored (mentioned .unit) () :=
      mentions_compound .unit rfl hi (by simp [children])
    rwa [mentionsOf, text, String.toList_ofList]
  | _ => exact mentions_type h hi

end TypeExpr

namespace Call

/-- Recording the text of a canonical expression succeeds on any ledger that calls were made on. The
ledger is in order afterwards, and each bucket holds what it held before and those names of the
expression that go to it and are not ignored. -/
theorem record_adds_mentioned {e : TypeExpr} (he : e.Canonical) (definitions : Definitions)
    {ignored : List String} (hi : ∀ n ∈ ignored, IsWord n) (past : List Call) :
    let l := (Ledger.empty definitions ignored).afterAll past
    let now := l.after (record [some e.text])
    (record [some e.text]).outcome l = .ok none ∧ Ledger.Kept definitions ignored now ∧
      ∀ b n, n ∈ now.names b ↔
        n ∈ l.names b ∨ n ∈ e.mentioned ∧ n ∉ ignored ∧ Ledger.GoesTo definitions n b := by
  intro l now
  have hl : Ledger.Kept definitions ignored l := (Ledger.Kept.empty _ _).afterAll past
  have htrail : (record [some e.text]).trail l.ignored = .noting ignored e.mentioned none := by
    rw [hl.ignored_eq]
    show ((mentionsOf ignored e.text).andThen fun _ => .done ()).andThen (fun _ => .done none) = _
    rw [TypeExpr.mentionsOf_text he hi]
    exact ((Trail.Ends.noting e.mentioned ()).map fun _ => ()).map fun _ => none
  refine ⟨?_, hl.after _, fun b n => ?_⟩
  · rw [outcome_eq _ fun _ => Iff.rfl, htrail]
    rfl
  · show n ∈ (l.after _).names b ↔ _
    rw [Ledger.after_eq, htrail, Ledger.mem_names_recordAll hl.hasBuckets, Trail.mem_noting,
      hl.definitions_eq, ← Ledger.goesTo_iff, and_assoc]

/-- An urn and nothing, or else a range of numbers with bytes. -/
def urnOrBytes : TypeExpr :=
  .pair .result (.tuple [.name (.of "urn".toList), .unit])
    (.wrapper .rangeInclusive TypeExpr.numberAndBytes)

theorem canonical_urnOrBytes : urnOrBytes.Canonical := by
  have hpair : (TypeExpr.tuple [.name (.of "urn".toList), .unit]).Canonical := by
    refine .tuple (by decide) ?_
    simp only [List.mem_cons, List.not_mem_nil, or_false, forall_eq_or_imp, forall_eq]
    exact ⟨.name (TypeExpr.isPlain_of_start rfl), .unit⟩
  refine .pair .result hpair (.wrapper (fun h => absurd h (by decide)) ?_)
  exact TypeExpr.canonical_numberAndBytes

/-- The urn goes to the first file that lists it, the tags to the library, and the tag that the
document declares itself nowhere. -/
theorem record_adds_urnOrBytes :
    let definitions := [("./own", ["Ballot"]), ("./urns", ["urn", "Vec"]), ("./more", ["urn"])]
    let text := "Result<(urn,()),RangeInclusive<(u32,[u8;4])>>"
    let l := (Ledger.empty definitions ["Tuple"]).afterAll [label "u32" (some "Index")]
    let now := l.after (record [some text])
    urnOrBytes.Canonical ∧ (∀ n ∈ ["Tuple"], IsWord n) ∧
      (record [some text]).outcome l = .ok none ∧
      "urn" ∈ now.names "./urns" ∧ "Range" ∈ now.names "codecTypes" ∧
      "Null" ∈ now.names "codecTypes" ∧ "Tuple" ∉ now.names "codecTypes" := by
  intro definitions text l now
  have hword : ∀ n ∈ ["Tuple"], IsWord n := by
    intro n hn
    obtain rfl := List.mem_singleton.1 hn
    exact isWord_of_all rfl
  obtain ⟨houtcome, hkept, hnames⟩ := record_adds_mentioned canonical_urnOrBytes definitions hword
    [label "u32" (some "Index")]
  have hadded : ∀ b n, n ∈ urnOrBytes.mentioned → n ∉ ["Tuple"] →
      Ledger.bucketOf? definitions n = some b → n ∈ now.names b :=
    fun b n hn hi hb => (hnames b n).2 (.inr ⟨hn, hi, Ledger.goesTo_iff.2 hb⟩)
  refine ⟨canonical_urnOrBytes, hword, houtcome, ?_, ?_, ?_, ?_⟩
  · exact hadded _ _ (by decide) (by decide) (by decide)
  · exact hadded _ _ (by decide) (by decide) (by decide)
  · exact hadded _ _ (by decide) (by decide) (by decide)
  · exact fun hm => hkept.not_ignored _ _ hm (by decide)

end Call

end ChainTypings
