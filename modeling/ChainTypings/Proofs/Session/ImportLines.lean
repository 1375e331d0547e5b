import ChainTypings.Proofs.Import.Lines
import ChainTypings.Proofs.Session.WriteOnly

/-!
# The import lines of a session

Whatever calls were made on a ledger, its import lines say what it holds, each name once
(`ImportDef.exists_imports`): the lines are in the order of their files, the names of each ascend,
and a name that was recorded is on the line of the module that its bucket is imported from. Only the
two tags that are no classes are on no line.

A name is in one bucket of a ledger that calls were made on (`Ledger.Kept`), which is why it is in
one group; and what a group has is held in the bucket that the group draws on
(`exists_bucket_of_listed`).
-/

namespace ChainTypings

open Ledger (Kept)

/-- The module that the names of a bucket are imported from. -/
def ImportDef.moduleOf (bucket : String) : String :=
  if bucket ∈ Category.ofBaseModule.map (·.name) then typesModule
  else if bucket = Category.types.name then interfacesModule
  else bucket

namespace ImportDef

/-- Whether a name of the bucket is a class that can be imported. -/
def Importable (bucket name : String) : Prop := bucket = Category.codec.name → name ∉ notExported

/-- The groups import what the ledger holds. -/
structure Imports (l : Ledger) (gs : List ImportDef) : Prop where
  ascending : (gs.map (·.file)).Pairwise (· ≤ ·)
  ne_nil : ∀ g ∈ gs, g.names ≠ []
  increasing : ∀ g ∈ gs, g.names.Pairwise (· < ·)
  /-- A name that is held is in one group, which imports it from the module of its bucket. -/
  once : ∀ b, ∀ n ∈ l.names b, Importable b n →
    ∃ g, gs.filter (n ∈ ·.names) = [g] ∧ g.file = moduleOf b
  held : ∀ g ∈ gs, ∀ n ∈ g.names, ∃ b, n ∈ l.names b ∧ Importable b n

/-! ## The order of lines and names -/

theorem increasing_listed (d : ImportDef) : d.listed.Pairwise (· < ·) := by
  have hnodup : d.listed.Nodup := by
    rw [listed, sortTexts, (List.mergeSort_perm _ _).nodup_iff]
    exact nodup_eraseDups _
  refine (ascending_sortTexts _).imp₂ ?_ hnodup
  intro a b hle hne
  exact String.not_le.1 fun hge => hne (String.le_antisymm (textLE_iff.1 hle) hge)

theorem ascending_groups (l : Ledger) : ((groups l).map (·.file)).Pairwise (· ≤ ·) := by
  have hcollect : (collect l []).Pairwise fun a b => textLE a.file b.file = true := by
    refine List.pairwise_mergeSort ?_ ?_ _
    · intro a b c hab hbc
      exact textLE_trans a.file b.file c.file hab hbc
    · intro a b
      exact textLE_total a.file b.file
  rw [List.pairwise_map]
  exact (hcollect.filter _).imp textLE_iff.1

/-! ## The bucket of a listed name -/

theorem moduleOf_name {c : Category} (h : c ∈ Category.ofBaseModule) :
    moduleOf c.name = typesModule :=
  if_pos (List.mem_map_of_mem h)

theorem moduleOf_file {file : String} (h : ∀ c : Category, file ≠ c.name) :
    moduleOf file = file := by
  have hbase : file ∉ Category.ofBaseModule.map (·.name) := by
    intro hc
    obtain ⟨c, _, hc⟩ := List.mem_map.1 hc
    exact h c hc.symm
  rw [moduleOf, if_neg hbase, if_neg (h _)]

/-- What a group lists is held in a bucket of the module that the group imports from. -/
theorem exists_bucket_of_listed {l : Ledger}
    (hnames : ∀ d ∈ l.definitions, ∀ c : Category, d.1 ≠ c.name) {d : ImportDef}
    (hd : d ∈ groups l) {n : String} (hn : n ∈ d.listed) :
    ∃ b, n ∈ l.names b ∧ Importable b n ∧ d.file = moduleOf b := by
  rcases cases_of_mem_groups hd hn with
    ⟨c, hc, hfile, hheld, hexported⟩ | ⟨hfile, hheld⟩ | ⟨e, he, hfile, hheld⟩
  · have hcodec : c.name = Category.codec.name → c = .codec := by cases c <;> decide
    exact ⟨c.name, hheld, fun h => hexported (hcodec h), hfile.trans (moduleOf_name hc).symm⟩
  · exact ⟨_, hheld, fun h => absurd h (by decide), hfile⟩
  · exact ⟨e.1, hheld, fun h => absurd h (hnames e he _),
      hfile.trans (moduleOf_file (hnames e he)).symm⟩

/-! ## Lines after a session -/

section

variable {definitions : Definitions} {ignored : List String} {l : Ledger}
  (hl : Kept definitions ignored l)

include hl

/-- A name that is held and can be imported is listed by one group. -/
theorem countP_groups_of_held (hfiles : (definitions.map (·.1)).Nodup)
    (hnames : ∀ d ∈ definitions, ∀ c : Category, d.1 ≠ c.name) {b n : String}
    (hn : n ∈ l.names b) (himportable : Importable b n) :
    (groups l).countP (n ∈ ·.listed) = 1 := by
  have hbucket := Ledger.bucketOf?_eq_some.2 (hl.placed b n hn)
  -- the tags that are no classes are in the tables, so they are in no other bucket
  have hexported : n ∉ notExported := by
    intro hm
    have hcodec : ∀ m ∈ notExported, Category.of? m = some .codec := by decide
    rw [Ledger.bucketOf?, hcodec n hm, Option.some.injEq] at hbucket
    exact himportable hbucket.symm hm
  rw [← hl.definitions_eq] at hfiles hnames hbucket
  refine countP_groups hfiles hnames hexported hbucket fun b' => ⟨fun hb' => ?_, ?_⟩
  · exact hl.bucket_unique hb' hn
  · rintro rfl
    exact hn

/-- The groups with their names as they are listed import what the ledger holds. -/
theorem imports_groups (hfiles : (definitions.map (·.1)).Nodup)
    (hnames : ∀ d ∈ definitions, ∀ c : Category, d.1 ≠ c.name) :
    Imports l ((groups l).map tidied) := by
  have hnames' : ∀ d ∈ l.definitions, ∀ c : Category, d.1 ≠ c.name := by
    rwa [hl.definitions_eq]
  constructor
  case ascending =>
    rw [List.map_map]
    exact ascending_groups l
  case ne_nil =>
    intro g hg
    obtain ⟨d, hd, rfl⟩ := List.mem_map.1 hg
    have hne := (List.mem_filter.1 hd).2
    rw [← isEmpty_listed] at hne
    simpa [tidied] using hne
  case increasing =>
    intro g hg
    obtain ⟨d, -, rfl⟩ := List.mem_map.1 hg
    exact increasing_listed d
  case once =>
    intro b n hn himportable
    have hcount := countP_groups_of_held hl hfiles hnames hn himportable
    have hlength : (((groups l).map tidied).filter (n ∈ ·.names)).length = 1 := by
      rw [← List.countP_eq_length_filter, List.countP_map]
      exact hcount
    obtain ⟨g, hg⟩ := List.length_eq_one_iff.1 hlength
    refine ⟨g, hg, ?_⟩
    have hmem : g ∈ ((groups l).map tidied).filter (n ∈ ·.names) := by
      rw [hg]
      exact List.mem_singleton_self g
    obtain ⟨hmem, hgn⟩ := List.mem_filter.1 hmem
    obtain ⟨d, hd, rfl⟩ := List.mem_map.1 hmem
    obtain ⟨b', hb', -, hfile⟩ := exists_bucket_of_listed hnames' hd (of_decide_eq_true hgn)
    rw [hl.bucket_unique hn hb']
    exact hfile
  case held =>
    intro g hg n hn
    obtain ⟨d, hd, rfl⟩ := List.mem_map.1 hg
    obtain ⟨b, hb, himportable, -⟩ := exists_bucket_of_listed hnames' hd hn
    exact ⟨b, hb, himportable⟩

end

/-- After any session on a ledger whose files are no categories, the import lines are the statements
of groups that import what the ledger holds. -/
theorem exists_imports {definitions : Definitions} (hfiles : (definitions.map (·.1)).Nodup)
    (hnames : ∀ d ∈ definitions, ∀ c : Category, d.1 ≠ c.name) (ignored : List String)
    (calls : List Call) :
    let l := (Ledger.empty definitions ignored).afterAll calls
    ∃ gs, lines l [] = gs.map statement ∧ Imports l gs := by
  intro l
  have hl : Kept definitions ignored l := (Kept.empty definitions ignored).afterAll calls
  refine ⟨(groups l).map tidied, ?_, imports_groups hl hfiles hnames⟩
  rw [lines_eq_map, List.map_map]
  rfl

/-- A vector of ballots, a labelled number and an urn from a file that is called like the module of
the library: `VecFixed` and the ignored `Index` are on no line. -/
theorem exists_imports_ballot :
    let definitions := [("./own", ["Ballot", "Index"]), (typesModule, ["Urn"])]
    let l := (Ledger.empty definitions ["Index"]).afterAll
      [.record [some "[Ballot;4]", none], .label "u32" (some "Index"),
        .format {} .oneLine (.shape (.leaf { tag := .plain, type := "Urn" })) none]
    (definitions.map (·.1)).Nodup ∧ (∀ d ∈ definitions, ∀ c : Category, d.1 ≠ c.name) ∧
      ∃ gs, lines l [] = gs.map statement ∧ Imports l gs ∧
        (∃ g, gs.filter ("Ballot" ∈ ·.names) = [g] ∧ g.file = "./own") ∧
        ∃ g, gs.filter ("As" ∈ ·.names) = [g] ∧ g.file = "@polkadot/types/types" := by
  intro definitions l
  have hfiles : (definitions.map (·.1)).Nodup := by decide
  have hnames : ∀ d ∈ definitions, ∀ c : Category, d.1 ≠ c.name := by
    have hall : ∀ d ∈ definitions, ∀ c ∈ Category.all, d.1 ≠ c.name := by decide
    intro d hd c
    exact hall d hd c c.mem_all
  have hballot : "Ballot" ∈ l.names "./own" := by decide +kernel
  have has : "As" ∈ l.names Category.types.name := by decide +kernel
  obtain ⟨gs, hlines, himports⟩ := exists_imports hfiles hnames ["Index"] _
  refine ⟨hfiles, hnames, gs, hlines, himports, ?_, ?_⟩
  · exact himports.once _ _ hballot fun h => absurd h (by decide)
  · exact himports.once _ _ has fun h => absurd h (by decide)

end ImportDef

end ChainTypings
