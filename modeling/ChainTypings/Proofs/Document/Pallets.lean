import ChainTypings.Metadata
import ChainTypings.Proofs.Document.ErrorLines
import ChainTypings.Proofs.Sorting.Stable
import Mathlib.Data.List.Perm.Basic

/-!
# What the errors document tells

There is one module for each pallet that declares errors, and it tells the errors of the pallet: the
variants of its error type, each with its own documentation (`ErrorModule.Tells`). Modules and
errors stand in the order of their names. The whole is the same in whatever order the pallets are
given, if no two modules have the same name (`ErrorModule.collect_eq_of_perm`). The document writes
all that the modules tell (`ErrorModule.collected_and_written`).
-/

namespace ChainTypings.ErrorModule

variable {r : Registry} {pallets pallets' : List Pallet}

/-! ## The errors of one pallet -/

/-- The error of a variant has its name and its documentation: all of it, if the annotations are of
the kinds that they are declared with. -/
structure Describes (variant : Shape) (item : ErrorItem) : Prop where
  name : variant.head.label? = some item.name
  docs : item.docs = docLines variant.head
  typed : variant.head.isTyped = true → variant.head.docs = item.docs.map Json.str

/-- A module tells the errors of a pallet: it has its name in camel case and, in the order of the
names, an error for each variant of its error type. -/
structure Tells (r : Registry) (p : Pallet) (m : ErrorModule) : Prop where
  name : m.name = Text.camel p.name
  items : ∃ shape items, Scope.lookup r p.errors = .ok shape ∧ shape.head.tag = .enum ∧
    List.Forall₂ Describes shape.children items ∧ SortedBy ErrorItem.name items m.items

/-- Documentation that is all texts is kept as it is. -/
theorem map_str_docLines {h : Head} (htyped : h.isTyped = true) :
    (docLines h).map Json.str = h.docs := by
  simp only [Head.isTyped, Bool.and_eq_true, List.all_eq_true] at htyped
  have htexts : ∀ v ∈ h.docs, v.text?.map Json.str = some v := by
    intro v hv
    have hkind := htyped.2 v hv
    cases v with
    | str s => rfl
    | _ => cases hkind
  rw [docLines, List.map_filterMap, List.filterMap_congr htexts, List.filterMap_some]

theorem describes_of_itemsOf {shape : Shape} {variants : List Shape} {items : List ErrorItem}
    (h : itemsOf shape variants = .ok items) : List.Forall₂ Describes variants items := by
  induction variants generalizing items with
  | nil =>
    obtain rfl := Except.ok.inj h
    exact .nil
  | cons variant rest ih =>
    unfold itemsOf at h
    split at h
    · cases h
    · next name hname =>
      split at h
      · next items' hrest =>
        obtain rfl := Except.ok.inj h
        have hdocs (htyped : variant.head.isTyped = true) :
            variant.head.docs = (docLines variant.head).map Json.str :=
          (map_str_docLines htyped).symm
        exact .cons ⟨hname, rfl, hdocs⟩ (ih hrest)
      · cases h

theorem of_variantsOf {shape : Shape} {variants : List Shape}
    (h : variantsOf shape = .ok variants) :
    shape.head.tag = .enum ∧ variants = shape.children := by
  unfold variantsOf at h
  split at h
  · cases h
  · next htag =>
    split at h
    · cases h
    · exact ⟨not_not.1 htag, (Except.ok.inj h).symm⟩

theorem tells_of_ofPallet {p : Pallet} {m : ErrorModule}
    (h : ofPallet r p.name p.errors = .ok m) : Tells r p m := by
  unfold ofPallet at h
  split at h
  · cases h
  · next shape hshape =>
    split at h
    · cases h
    · next variants hvariants =>
      split at h
      · cases h
      · next items hitems =>
        obtain rfl := Except.ok.inj h
        obtain ⟨htag, rfl⟩ := of_variantsOf hvariants
        exact ⟨rfl, shape, items, hshape, htag, describes_of_itemsOf hitems,
          sortedBy_mergeSort ErrorItem.name items⟩

/-! ## The errors of all pallets -/

/-- The pallets that declare errors. -/
def declaring (pallets : List Pallet) : List Pallet := pallets.filter fun p => !p.errors.isNull

/-- The names that the modules of pallets have. -/
def names (pallets : List Pallet) : List String :=
  (declaring pallets).map fun p => Text.camel p.name

/-- There is one module for each pallet that declares errors. -/
theorem ofEachPallet_eq_ok {ms : List ErrorModule} : ofEachPallet r pallets = .ok ms ↔
    List.Forall₂ (fun p m => ofPallet r p.name p.errors = .ok m) (declaring pallets) ms := by
  induction pallets generalizing ms with
  | nil => cases ms <;> simp [ofEachPallet, declaring]
  | cons p ps ih =>
    cases hnull : p.errors.isNull with
    | true =>
      have hskip : declaring (p :: ps) = declaring ps := by simp [declaring, hnull]
      rw [hskip, ← ih, ofEachPallet, hnull, if_pos rfl]
    | false =>
      have hkeep : declaring (p :: ps) = p :: declaring ps := by simp [declaring, hnull]
      rw [hkeep, ofEachPallet, hnull, if_neg Bool.false_ne_true, List.forall₂_cons_left_iff]
      cases hpallet : ofPallet r p.name p.errors with
      | error e => simp
      | ok m =>
        cases hrest : ofEachPallet r ps with
        | error e =>
          simp only [reduceCtorEq, false_iff]
          rintro ⟨m', ms', -, hms, -⟩
          cases hrest.symm.trans (ih.2 hms)
        | ok ms' =>
          simp only [Except.ok.injEq]
          constructor
          · rintro rfl
            exact ⟨m, ms', rfl, ih.1 hrest, rfl⟩
          · rintro ⟨m', ms'', rfl, hms, rfl⟩
            rw [Except.ok.inj (hrest.symm.trans (ih.2 hms))]

theorem collect_eq_ok {ms : List ErrorModule} : collect r pallets = .ok ms ↔
    ∃ told, ofEachPallet r pallets = .ok told ∧
      ms = told.mergeSort fun a b => ImportDef.textLE a.name b.name := by
  unfold collect
  split
  · next heach => simp [heach]
  · next told heach => simp [heach, eq_comm]

theorem map_name_of_ofEachPallet {told : List ErrorModule}
    (h : ofEachPallet r pallets = .ok told) : told.map ErrorModule.name = names pallets := by
  have hnames := (ofEachPallet_eq_ok.1 h).imp fun p m hm => (tells_of_ofPallet hm).name
  have heq : List.Forall₂ Eq (told.map ErrorModule.name) (names pallets) := by
    rw [names, List.forall₂_map_left_iff, List.forall₂_map_right_iff]
    exact hnames.flip
  exact List.forall₂_eq_eq_eq ▸ heq

/-- If no two modules have the same name, the order of the pallets plays no part. -/
theorem collect_eq_of_perm {ms : List ErrorModule} (h : collect r pallets = .ok ms)
    (hperm : pallets'.Perm pallets) (hnodup : (names pallets).Nodup) :
    collect r pallets' = .ok ms := by
  obtain ⟨told, htold, rfl⟩ := collect_eq_ok.1 h
  obtain ⟨told', htold', hperm'⟩ :=
    List.perm_comp_forall₂ (hperm.filter _) (ofEachPallet_eq_ok.1 htold)
  refine collect_eq_ok.2 ⟨told', ofEachPallet_eq_ok.2 htold', ?_⟩
  rw [← map_name_of_ofEachPallet htold] at hnodup
  exact ((sortedBy_mergeSort ErrorModule.name told).eq_of_perm
    (sortedBy_mergeSort ErrorModule.name told') hperm' hnodup).symm

/-- The collected modules are those of the pallets that declare errors, one for each, and each tells
the errors of its pallet. Another order of the pallets makes no difference to them, if no two have
the same name. Of any modules, the strict document writes every module, every error and all of its
documentation, in order, and it alone does; the document that is not strict is the strict one but for
the four lines of one more member, which stand in front of the line that closes each module.
Documentation is meant to be texts; what is of another kind does not get into the modules
(`docLines`). -/
theorem collected_and_written {ms : List ErrorModule} (h : collect r pallets = .ok ms) :
    (∃ told, List.Forall₂ (Tells r) (declaring pallets) told ∧
        SortedBy ErrorModule.name told ms) ∧
      (∀ pallets' : List Pallet, pallets'.Perm pallets → (names pallets).Nodup →
        collect r pallets' = .ok ms) ∧
      ∀ ms' : List ErrorModule,
        (∀ strict, source strict ms' = preamble ++ written (documentLines strict ms')) ∧
          (∀ ls, WritesDocument ms' ls ↔ ls = documentLines true ms') ∧
          documentLines false ms' = (documentLines true ms').flatMap withGeneric ∧
          (documentLines true ms').count closing = ms'.length := by
  refine ⟨?_, fun pallets' hperm hnodup => collect_eq_of_perm h hperm hnodup, fun ms' => ?_⟩
  · obtain ⟨told, htold, rfl⟩ := collect_eq_ok.1 h
    exact ⟨told, (ofEachPallet_eq_ok.1 htold).imp fun p m hm => tells_of_ofPallet hm,
      sortedBy_mergeSort ErrorModule.name told⟩
  · exact ⟨fun strict => source_eq strict ms', writesDocument_iff ms',
      documentLines_false ms', count_closing ms'⟩

/-- An error type of which two variants have the same name. -/
def tollErrors : Shape :=
  .group { tag := .enum, type := "TollError", lookupIndex := .int 3 }
    [.leaf { tag := .null, type := "Null", name := .str "TooLow", docs := [.str "The first."] },
     .leaf { tag := .null, type := "Null", name := .str "Frozen" },
     .leaf { tag := .null, type := "Null", name := .str "TooLow", docs := [.str "The second."] }]

/-- The registry of the error type. -/
def tollRegistry : Registry where
  entries := [(.number 3 0, tollErrors)]

/-- Two pallets with these errors, and one without any. -/
def tollPallets : List Pallet := [⟨"Toll_gate", .int 3⟩, ⟨"System", .null⟩, ⟨"Bridge", .int 3⟩]

/-- The errors in the order of the variants. -/
def tollItems : List ErrorItem :=
  [⟨"TooLow", ["The first."]⟩, ⟨"Frozen", []⟩, ⟨"TooLow", ["The second."]⟩]

/-- The errors in the order of their names. -/
def sortedTollItems : List ErrorItem :=
  [⟨"Frozen", []⟩, ⟨"TooLow", ["The first."]⟩, ⟨"TooLow", ["The second."]⟩]

theorem collect_tollPallets : collect tollRegistry tollPallets =
    .ok [⟨"bridge", sortedTollItems⟩, ⟨"tollGate", sortedTollItems⟩] := by
  have hdown : ImportDef.textLE "TooLow" "Frozen" = false := by decide +kernel
  have hup : ImportDef.textLE "Frozen" "TooLow" = true := by decide +kernel
  have hsame : ImportDef.textLE "TooLow" "TooLow" = true := by decide +kernel
  have hnames : ImportDef.textLE "tollGate" "bridge" = false := by decide +kernel
  have hitems : sortItems tollItems = sortedTollItems := by
    simp [sortItems, List.mergeSort, tollItems, sortedTollItems, hdown, hup, hsame]
  have heach : ofEachPallet tollRegistry tollPallets =
      .ok [⟨Text.camel "Toll_gate", sortItems tollItems⟩,
        ⟨Text.camel "Bridge", sortItems tollItems⟩] := rfl
  have htoll : Text.camel "Toll_gate" = "tollGate" := by decide +kernel
  have hbridge : Text.camel "Bridge" = "bridge" := by decide +kernel
  rw [collect, heach, htoll, hbridge, hitems]
  simp [List.mergeSort, hnames]

/-- The lines of the one module. -/
def tollGateLines : List String :=
  ["    tollGate: \x7b",
   "      Frozen: AugmentedError<ApiType>;",
   "      /**",
   "       * The first.",
   "       **/",
   "      TooLow: AugmentedError<ApiType>;",
   "      /**",
   "       * The second.",
   "       **/",
   "      TooLow: AugmentedError<ApiType>;",
   "    \x7d;"]

/-- The modules of the pallets, in whichever order these are given, and what is written of them. -/
theorem collected_and_written_tollPallets :
    collect tollRegistry tollPallets =
        .ok [⟨"bridge", sortedTollItems⟩, ⟨"tollGate", sortedTollItems⟩] ∧
      tollPallets.reverse.Perm tollPallets ∧ (names tollPallets).Nodup ∧
      collect tollRegistry tollPallets.reverse =
        .ok [⟨"bridge", sortedTollItems⟩, ⟨"tollGate", sortedTollItems⟩] ∧
      WritesDocument [⟨"bridge", sortedTollItems⟩, ⟨"tollGate", sortedTollItems⟩]
        (documentLines true [⟨"bridge", sortedTollItems⟩, ⟨"tollGate", sortedTollItems⟩]) ∧
      lines true ⟨"tollGate", sortedTollItems⟩ = tollGateLines := by
  have hperm : tollPallets.reverse.Perm tollPallets := List.reverse_perm _
  have hnodup : (names tollPallets).Nodup := by decide +kernel
  have hlines : lines true ⟨"tollGate", sortedTollItems⟩ = tollGateLines := by decide +kernel
  obtain ⟨-, hreversed, hdocument⟩ := collected_and_written collect_tollPallets
  obtain ⟨-, hwritten, -⟩ := hdocument [⟨"bridge", sortedTollItems⟩, ⟨"tollGate", sortedTollItems⟩]
  exact ⟨collect_tollPallets, hperm, hnodup, hreversed _ hperm hnodup, (hwritten _).2 rfl, hlines⟩

end ChainTypings.ErrorModule
