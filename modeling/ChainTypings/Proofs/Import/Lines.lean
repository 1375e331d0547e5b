import ChainTypings.Proofs.Import.Groups

/-!
# Import lines do not depend on an order

The line of a group lists its names in ascending order and each once, so it depends only on which
names there are (`listed_congr`), and so do the import lines of a ledger: two ledgers for the same
definition files that hold the same names in each bucket have the same lines (`lines_congr`), in
whatever order the names were recorded.
-/

namespace ChainTypings

namespace ImportDef

/-! ## The order of texts -/

theorem textLE_iff {a b : String} : textLE a b = true ↔ a ≤ b := by
  rw [textLE, Bool.not_eq_true', decide_eq_false_iff_not, String.not_lt]

theorem textLE_trans (a b c : String) (hab : textLE a b = true) (hbc : textLE b c = true) :
    textLE a c = true := by
  rw [textLE_iff] at hab hbc ⊢
  exact String.le_trans hab hbc

theorem textLE_total (a b : String) : (textLE a b || textLE b a) = true := by
  rw [Bool.or_eq_true, textLE_iff, textLE_iff]
  exact String.le_total a b

theorem textLE_antisymm {a b : String} (hab : textLE a b = true) (hba : textLE b a = true) :
    a = b := by
  rw [textLE_iff] at hab hba
  exact String.le_antisymm hab hba

theorem ascending_sortTexts (names : List String) :
    (sortTexts names).Pairwise fun a b => textLE a b = true :=
  List.pairwise_mergeSort textLE_trans textLE_total names

/-! ## Names of a line -/

theorem nodup_eraseDups (names : List String) : names.eraseDups.Nodup := by
  induction hlength : names.length using Nat.strongRecOn generalizing names with
  | ind k ih =>
    cases names with
    | nil => exact .nil
    | cons a as =>
      have hshorter : (as.filter fun b => !b == a).length < k := by
        rw [← hlength, List.length_cons]
        exact Nat.lt_succ_of_le (List.length_filter_le _ _)
      rw [List.eraseDups_cons, List.nodup_cons]
      refine ⟨fun ha => ?_, ih _ hshorter _ rfl⟩
      rw [List.mem_eraseDups, List.mem_filter] at ha
      simp at ha

/-- What the line of a group lists depends only on which names it has. -/
theorem listed_congr {d d' : ImportDef} (h : ∀ n, n ∈ d.names ↔ n ∈ d'.names) :
    d.listed = d'.listed := by
  have hperm : d.names.eraseDups.Perm d'.names.eraseDups := by
    refine (List.perm_ext_iff_of_nodup (nodup_eraseDups _) (nodup_eraseDups _)).2 fun n => ?_
    rw [List.mem_eraseDups, List.mem_eraseDups, h]
  refine List.Perm.eq_of_pairwise (fun a b _ _ hab hba => textLE_antisymm hab hba)
    (ascending_sortTexts _) (ascending_sortTexts _) ?_
  exact (List.mergeSort_perm _ _).trans (hperm.trans (List.mergeSort_perm _ _).symm)

/-! ## Lines of a ledger -/

/-- A group with its names as its line lists them. -/
def tidied (d : ImportDef) : ImportDef := { d with names := d.listed }

/-- The import statement of a group with its names as they stand. -/
def statement (d : ImportDef) : String :=
  "import type \x7b " ++ String.intercalate ", " d.names ++ " \x7d from '" ++ d.file ++ "';"

theorem isEmpty_listed (d : ImportDef) : d.listed.isEmpty = d.names.isEmpty := by
  rw [Bool.eq_iff_iff, List.isEmpty_iff, List.isEmpty_iff, List.eq_nil_iff_forall_not_mem,
    List.eq_nil_iff_forall_not_mem]
  simp only [mem_listed]

/-- The lines are the statements of the groups once they are tidied up and sorted by their files. -/
theorem lines_eq (l : Ledger) (extra : List ImportDef) :
    lines l extra =
      ((((unsorted l ++ extra).map tidied).mergeSort fun a b => textLE a.file b.file).filter
        (!·.names.isEmpty)).map statement := by
  have hsorted : (collect l extra).map tidied =
      ((unsorted l ++ extra).map tidied).mergeSort fun a b => textLE a.file b.file :=
    List.map_mergeSort fun _ _ _ _ => rfl
  rw [← hsorted, List.filter_map, List.map_map]
  show ((collect l extra).filter (!·.names.isEmpty)).map line =
    ((collect l extra).filter ((!·.names.isEmpty) ∘ tidied)).map line
  refine congrArg (List.map line) (List.filter_congr fun d _ => ?_)
  show (!d.names.isEmpty) = !d.listed.isEmpty
  rw [isEmpty_listed]

/-- Ledgers that hold the same names in each bucket have the same import lines. -/
theorem lines_congr {l l' : Ledger} (hdefinitions : l.definitions = l'.definitions)
    (hnames : ∀ b n, n ∈ l.names b ↔ n ∈ l'.names b) (extra : List ImportDef) :
    lines l extra = lines l' extra := by
  have group {file : String} {ns ns' : List String} (h : ∀ n, n ∈ ns ↔ n ∈ ns') :
      tidied ⟨file, ns⟩ = tidied ⟨file, ns'⟩ :=
    congrArg (ImportDef.mk file) (@listed_congr ⟨file, ns⟩ ⟨file, ns'⟩ h)
  have hbase : ∀ n, n ∈ Category.ofBaseModule.flatMap (baseNames l) ↔
      n ∈ Category.ofBaseModule.flatMap (baseNames l') := by
    intro n
    simp only [List.mem_flatMap, mem_baseNames, hnames]
  have hunsorted : (unsorted l).map tidied = (unsorted l').map tidied := by
    have hfiles : l'.definitions.map (fun d => tidied ⟨d.1, l.names d.1⟩) =
        l'.definitions.map fun d => tidied ⟨d.1, l'.names d.1⟩ :=
      List.map_congr_left fun d _ => group (hnames d.1)
    simp only [unsorted, List.map_cons, List.map_map, Function.comp_def, hdefinitions]
    rw [group hbase, group (hnames _), hfiles]
  rw [lines_eq, lines_eq, List.map_append, List.map_append, hunsorted]

end ImportDef

end ChainTypings
