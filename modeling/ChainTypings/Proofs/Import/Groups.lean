import ChainTypings.Import.Lines
import ChainTypings.Proofs.Import.Recording

/-!
# Which import line lists a name

The groups behind the import lines share the buckets of the ledger out among them: the first holds
the categories of the base module, the second the interface types, and each of the others one
definition file. A name goes to one bucket only, so a recorded name that goes anywhere at all is
listed in one group (`countP_groups`), and what is listed is recorded
(`exists_bucket_of_mem_groups`).
-/

namespace ChainTypings

namespace ImportDef

/-- The names in the import line of a group. -/
def listed (d : ImportDef) : List String := sortTexts d.names.eraseDups

@[simp] theorem mem_listed {d : ImportDef} {n : String} : n ∈ d.listed ↔ n ∈ d.names := by
  rw [listed, sortTexts, List.mem_mergeSort, List.mem_eraseDups]

/-- The groups that have an import line. -/
def groups (l : Ledger) : List ImportDef := (collect l []).filter (!·.names.isEmpty)

theorem lines_eq_map (l : Ledger) : lines l [] = (groups l).map line := rfl

theorem mem_baseNames {l : Ledger} {c : Category} {n : String} :
    n ∈ baseNames l c ↔ n ∈ l.names c.name ∧ (c = .codec → n ∉ notExported) := by
  unfold baseNames
  by_cases hc : c = .codec
  · simp [hc]
  · simp [hc]

/-! ## All groups -/

/-- The groups in the order in which they are collected. -/
def unsorted (l : Ledger) : List ImportDef :=
  ⟨typesModule, Category.ofBaseModule.flatMap (baseNames l)⟩ ::
    ⟨interfacesModule, l.names Category.types.name⟩ ::
      l.definitions.map fun d => ⟨d.1, l.names d.1⟩

theorem groups_perm (l : Ledger) : (groups l).Perm ((unsorted l).filter (!·.names.isEmpty)) := by
  have hcollect : (collect l []).Perm (unsorted l) := by
    unfold collect
    dsimp only
    rw [List.append_nil]
    exact List.mergeSort_perm _ _
  exact hcollect.filter _

/-- A group without a line lists nothing, so it does not count. -/
theorem countP_groups_eq (l : Ledger) (n : String) :
    (groups l).countP (n ∈ ·.listed) = (unsorted l).countP (n ∈ ·.names) := by
  rw [(groups_perm l).countP_eq, List.countP_filter]
  refine List.countP_congr ?_
  intro d _
  rw [Bool.and_eq_true, decide_eq_true_eq, decide_eq_true_eq, mem_listed]
  refine ⟨fun h => h.1, fun h => ⟨h, ?_⟩⟩
  simpa using List.ne_nil_of_mem h

/-- What a group lists is held by a category of the base module, by the interface types or by a
file, and the group imports from there. -/
theorem cases_of_mem_groups {l : Ledger} {d : ImportDef} {n : String} (hd : d ∈ groups l)
    (hn : n ∈ d.listed) :
    (∃ c ∈ Category.ofBaseModule, d.file = typesModule ∧ n ∈ l.names c.name ∧
        (c = .codec → n ∉ notExported)) ∨
      (d.file = interfacesModule ∧ n ∈ l.names Category.types.name) ∨
      ∃ e ∈ l.definitions, d.file = e.1 ∧ n ∈ l.names e.1 := by
  obtain ⟨hd, _⟩ := List.mem_filter.1 ((groups_perm l).mem_iff.1 hd)
  rw [mem_listed] at hn
  rcases List.mem_cons.1 hd with rfl | hd
  · obtain ⟨c, hc, hcn⟩ := List.mem_flatMap.1 hn
    exact .inl ⟨c, hc, rfl, mem_baseNames.1 hcn⟩
  rcases List.mem_cons.1 hd with rfl | hd
  · exact .inr (.inl ⟨rfl, hn⟩)
  · obtain ⟨e, he, rfl⟩ := List.mem_map.1 hd
    exact .inr (.inr ⟨e, he, rfl, hn⟩)

theorem exists_bucket_of_mem_groups {l : Ledger} {d : ImportDef} {n : String} (hd : d ∈ groups l)
    (hn : n ∈ d.listed) : ∃ b, n ∈ l.names b := by
  rcases cases_of_mem_groups hd hn with ⟨c, -, -, hc, -⟩ | ⟨-, ht⟩ | ⟨e, -, -, he⟩
  · exact ⟨_, hc⟩
  · exact ⟨_, ht⟩
  · exact ⟨_, he⟩

/-! ## A name of one bucket -/

section

variable {l : Ledger} {n b : String} (hb : ∀ b', n ∈ l.names b' ↔ b' = b)

include hb

theorem mem_base_iff (hn : n ∉ notExported) :
    n ∈ Category.ofBaseModule.flatMap (baseNames l) ↔ b ∈ Category.ofBaseModule.map (·.name) := by
  rw [List.mem_flatMap, List.mem_map]
  constructor
  · rintro ⟨c, hc, hcn⟩
    exact ⟨c, hc, (hb _).1 (mem_baseNames.1 hcn).1⟩
  · rintro ⟨c, hc, hcb⟩
    exact ⟨c, hc, mem_baseNames.2 ⟨(hb _).2 hcb, fun _ => hn⟩⟩

theorem countP_files :
    (l.definitions.map fun d => (⟨d.1, l.names d.1⟩ : ImportDef)).countP (n ∈ ·.names) =
      (l.definitions.map (·.1)).count b := by
  rw [List.countP_map, List.count_eq_countP, List.countP_map]
  refine List.countP_congr ?_
  intro d _
  simp [hb]

/-- A name that is in one bucket only is listed once for each group that draws on it. -/
theorem countP_unsorted (hn : n ∉ notExported) :
    (unsorted l).countP (n ∈ ·.names) =
      (l.definitions.map (·.1)).count b + (if b = Category.types.name then 1 else 0) +
        if b ∈ Category.ofBaseModule.map (·.name) then 1 else 0 := by
  rw [unsorted, List.countP_cons, List.countP_cons, countP_files hb]
  simp only [decide_eq_true_eq, mem_base_iff hb hn, hb, eq_comm (a := b)]

end

/-- The bucket of a name is drawn on by one group. -/
theorem countP_groups {l : Ledger} (hfiles : (l.definitions.map (·.1)).Nodup)
    (hnames : ∀ d ∈ l.definitions, ∀ c : Category, d.1 ≠ c.name) {n b : String}
    (hn : n ∉ notExported) (hbucket : Ledger.bucketOf? l.definitions n = some b)
    (hb : ∀ b', n ∈ l.names b' ↔ b' = b) : (groups l).countP (n ∈ ·.listed) = 1 := by
  have hnot : ∀ c : Category, c.name ∉ l.definitions.map (·.1) := by
    intro c hc
    obtain ⟨d, hd, hdc⟩ := List.mem_map.1 hc
    exact hnames d hd c hdc
  rw [countP_groups_eq, countP_unsorted hb hn]
  unfold Ledger.bucketOf? at hbucket
  split at hbucket
  · -- a category: no file has its name, so it counts for the module that draws on it
    next c hc =>
    obtain rfl := Option.some.inj hbucket
    rw [List.count_eq_zero_of_not_mem (hnot c)]
    cases c <;> decide
  · -- a file: there is one group for it, and it is no category
    obtain ⟨d, hd, rfl⟩ := Option.map_eq_some_iff.1 hbucket
    have hmem := List.mem_of_find?_eq_some hd
    have htypes : d.1 ≠ Category.types.name := hnames d hmem _
    have hbase : d.1 ∉ Category.ofBaseModule.map (·.name) := by
      intro hc
      obtain ⟨c, _, hcd⟩ := List.mem_map.1 hc
      exact hnames d hmem c hcd.symm
    rw [if_neg htypes, if_neg hbase, hfiles.count, if_pos (List.mem_map_of_mem hmem)]

end ImportDef

end ChainTypings
