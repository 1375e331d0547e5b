import ChainTypings.Document.Lookup
import ChainTypings.Proofs.Document.Declaring
import ChainTypings.Proofs.Document.Paragraphs
import ChainTypings.Proofs.Import.Groups

/-!
# The lookup document is closed

The lookup document is a list of import groups and a list of declarations, and its text is what
they are written as (`source_eq`), one below the other (`Document.holds_print`). If every name that
the entries bring in is a word that can be imported or declared, the document is closed: whatever its
declarations refer to is declared in it or else imported by exactly one line, and nothing that it
declares is imported.

Names come in by rendering, which has met whatever it refers to; they go out by the ledger, which
has a bucket for each name that is offered and keeps the ignored ones away.
-/

namespace ChainTypings

/-- A name that a document about the registry may refer to: a word that the library exports, that
an entry declares or that a definition file lists. -/
structure Registry.Offers (r : Registry) (definitions : Definitions) (n : String) : Prop where
  ne_nil : n.toList ≠ []
  word : Text.IsWord n
  exported : n ∉ ImportDef.notExported
  known : n ∈ Category.builtins ∨ (∃ e ∈ r.entries, e.2.head.alias? = some n) ∨
    ∃ d ∈ definitions, n ∈ d.2

theorem Registry.vocabulary_offers (r : Registry) (definitions : Definitions) :
    Vocabulary (r.Offers definitions) where
  ne_nil _ h := h.ne_nil
  word _ h := h.word
  marker := by
    intro n hn
    have hall : ∀ n ∈ Scope.markers, n.toList ≠ [] ∧ n.toList.all Text.isWordChar = true ∧
        n ∉ ImportDef.notExported ∧ n ∈ Category.builtins := by
      decide +kernel
    obtain ⟨hne, hword, hexported, hknown⟩ := hall n hn
    exact ⟨hne, Text.isWord_of_all hword, hexported, .inl hknown⟩

/-- A name that is offered is declared by an entry or goes to a bucket of the ledger. -/
theorem Registry.Offers.declared_or_bucket {r : Registry} {definitions : Definitions} {n : String}
    (h : r.Offers definitions n) :
    (∃ e ∈ r.entries, e.2.head.alias? = some n) ∨
      ∃ b, Ledger.bucketOf? definitions n = some b := by
  unfold Ledger.bucketOf?
  cases hc : Category.of? n with
  | some c => exact .inr ⟨c.name, rfl⟩
  | none =>
    have hbuiltin : n ∉ Category.builtins := by
      intro hb
      obtain ⟨c, hc', hn⟩ := List.mem_flatMap.1 hb
      have := List.find?_eq_none.1 hc c hc'
      exact this (by simpa using hn)
    rcases h.known with hb | he | ⟨d, hd, hn⟩
    · exact absurd hb hbuiltin
    · exact .inl he
    · right
      show ∃ b, Ledger.fileOf? definitions n = some b
      cases hf : definitions.find? fun d => d.2.contains n with
      | some d' => exact ⟨d'.1, by rw [Ledger.fileOf?, hf]; rfl⟩
      | none =>
        have := List.find?_eq_none.1 hf d hd
        exact absurd (by simpa using hn) this

namespace Lookup

/-! ## The document before it is written -/

/-- A lookup document: the groups that it imports and the declarations. -/
structure Document where
  groups : List ImportDef
  declarations : List Declaration

namespace Document

/-- The text of a document. -/
def print (d : Document) : String :=
  Source.assemble (d.groups.map ImportDef.line) (d.declarations.map Declaration.print)

/-- The text of a document holds the line of each group and the text of each declaration. -/
theorem holds_print (d : Document) : Source.Holds d.print (d.groups.map ImportDef.line)
    (d.declarations.map Declaration.print) := by
  refine Source.holds_assemble (fun line hline => ?_) fun block hblock => ?_
  · obtain ⟨g, _, rfl⟩ := List.mem_map.1 hline
    exact g.ends_line
  · obtain ⟨x, _, rfl⟩ := List.mem_map.1 hblock
    exact x.ends_print

/-- The names that a document declares. -/
def declared (d : Document) : List String := d.declarations.map (·.name)

/-- The names of types that the declarations of a document refer to. -/
def references (d : Document) : List String := d.declarations.flatMap Declaration.references

/-- The count of import lines that list a name. -/
def importCount (d : Document) (n : String) : Nat := d.groups.countP (n ∈ ·.listed)

/-- Every reference is to a declared name or else to one that exactly one line imports, and no
declared name is imported. -/
structure Closed (d : Document) : Prop where
  resolved : ∀ n ∈ d.references,
    n ∈ d.declared ∧ d.importCount n = 0 ∨ n ∉ d.declared ∧ d.importCount n = 1
  separate : ∀ n ∈ d.declared, d.importCount n = 0

end Document

/-- The document on entries with a declared name, and the trail of making it. -/
def declareAll (r : Registry) (named : List Shape) : Trail (List Declaration) :=
  Trail.mapEach (Declaration.ofShape ⟨r, namesOf named⟩) named

/-- The lookup document. -/
def document (r : Registry) (definitions : Definitions) : Except Failure Document :=
  match r.shapes? with
  | none => .error .unorderedIndices
  | some entries =>
    let named := namedEntries entries
    let trail := declareAll r named
    match trail.outcome with
    | .error e => .error (.render e)
    | .ok declarations =>
      let ledger := (Ledger.empty definitions (namesOf named)).recordAll trail.names
      .ok ⟨ImportDef.groups ledger, declarations⟩

theorem source_eq (r : Registry) (definitions : Definitions) :
    source r definitions = (document r definitions).map Document.print := by
  unfold source document declareAll
  cases r.shapes? with
  | none => rfl
  | some entries =>
    dsimp only
    cases (Trail.mapEach (Declaration.ofShape ⟨r, namesOf (namedEntries entries)⟩)
      (namedEntries entries)).outcome with
    | error e => rfl
    | ok declarations => rfl

/-- A text that is made is a document as it is written. -/
theorem exists_of_source {r : Registry} {definitions : Definitions} {text : String}
    (h : source r definitions = .ok text) :
    ∃ d, document r definitions = .ok d ∧ text = d.print := by
  rw [source_eq] at h
  cases hdocument : document r definitions with
  | error e =>
    rw [hdocument] at h
    cases h
  | ok d =>
    rw [hdocument] at h
    exact ⟨d, rfl, (Except.ok.inj h).symm⟩

/-- A document holds the declarations of the entries and the groups of what they mentioned. -/
theorem exists_of_document {r : Registry} {definitions : Definitions} {d : Document}
    (h : document r definitions = .ok d) :
    ∃ entries, r.shapes? = some entries ∧
      (declareAll r (namedEntries entries)).outcome = .ok d.declarations ∧
      d.groups = ImportDef.groups
        ((Ledger.empty definitions (namesOf (namedEntries entries))).recordAll
          (declareAll r (namedEntries entries)).names) := by
  unfold document at h
  cases hentries : r.shapes? with
  | none =>
    rw [hentries] at h
    cases h
  | some entries =>
    rw [hentries] at h
    dsimp only at h
    refine ⟨entries, rfl, ?_⟩
    split at h
    · cases h
    · next hok =>
      cases h
      exact ⟨hok, rfl⟩

/-! ## The entries that are declared -/

theorem mem_namedEntries {r : Registry} {entries : List Shape} (h : r.shapes? = some entries)
    {shape : Shape} : shape ∈ namedEntries entries ↔
      (∃ e ∈ r.entries, e.2 = shape) ∧ shape.head.alias?.isSome = true := by
  have hentries : shape ∈ entries ↔ ∃ e ∈ r.entries, e.2 = shape := by
    unfold Registry.shapes? at h
    split at h
    · obtain rfl := Option.some.inj h
      rw [List.mem_map]
      simp only [(Sorting.perm_sort _ r.entries).mem_iff]
    · cases h
  rw [namedEntries, List.mem_mergeSort, List.mem_filter, hentries]

theorem map_getD_alias? {named : List Shape}
    (h : ∀ s ∈ named, s.head.alias?.isSome = true) :
    named.map (fun s => s.head.alias?.getD "") = namesOf named := by
  rw [namesOf, ← List.filterMap_eq_map]
  refine List.filterMap_congr ?_
  intro s hs
  obtain ⟨n, hn⟩ := Option.isSome_iff_exists.1 (h s hs)
  simp [hn]

section

variable {r : Registry} {named : List Shape} {declarations : List Declaration}

/-- What declaring the entries has mentioned is not declared. -/
theorem not_mem_namesOf {n : String} (hn : n ∈ (declareAll r named).names) : n ∉ namesOf named := by
  have hclean : (declareAll r named).AllNames (· ∉ namesOf named) :=
    .mapEach fun shape _ => Declaration.clean_ofShape ⟨r, namesOf named⟩ shape
  exact hclean n hn

/-- The declarations have the declared names of the entries. -/
theorem declared_eq (hnamed : ∀ s ∈ named, s.head.alias?.isSome = true)
    (hok : (declareAll r named).outcome = .ok declarations) :
    declarations.map (·.name) = namesOf named := by
  have hnames : (declareAll r named).Gives (fun _ => False) fun ds _ =>
      ds.map (·.name) = named.map fun s => s.head.alias?.getD "" :=
    .mapEach_map fun shape _ k => Declaration.gives_name ⟨r, namesOf named⟩ shape k
  rw [hnames declarations hok, map_getD_alias? hnamed]

/-- Whatever the declarations refer to is declared or has been mentioned. -/
theorem mem_names_of_mem_references {p : String → Prop} (v : Vocabulary p)
    (hr : ∀ e ∈ r.entries, e.2.Spelt p) (hnamed : ∀ s ∈ named, s.Spelt p)
    (hok : (declareAll r named).outcome = .ok declarations) {d : Declaration}
    (hd : d ∈ declarations) {n : String} (hn : n ∈ d.references) :
    p n ∧ (n ∈ namesOf named ∨ n ∈ (declareAll r named).names) := by
  have hgives : (declareAll r named).Gives (fun _ => False) fun ds k =>
      ∀ d ∈ ds, Scope.Refers ⟨r, namesOf named⟩ p k d.references :=
    .mapEach (fun _ _ _ hk h => h.mono hk) fun shape hshape k _ =>
      Declaration.gives_ofShape v hr (hnamed shape hshape) k
  obtain ⟨hp, hmet⟩ := hgives declarations hok d hd n hn
  refine ⟨hp, hmet.imp_right fun h => ?_⟩
  exact h.resolve_left id

end

/-! ## The ledger of a document -/

section

variable {definitions : Definitions} {ignored names : List String} {n : String}

theorem mem_names_iff (b : String) :
    n ∈ ((Ledger.empty definitions ignored).recordAll names).names b ↔
      n ∈ names ∧ Ledger.bucketOf? definitions n = some b := by
  rw [Ledger.mem_names_recordAll (Ledger.hasBuckets_empty _ _), Ledger.names_empty]
  simp [Ledger.empty]

/-- A name that was not mentioned is not listed. -/
theorem countP_groups_of_not_mem (hn : n ∉ names) :
    (ImportDef.groups ((Ledger.empty definitions ignored).recordAll names)).countP
      (n ∈ ·.listed) = 0 := by
  rw [List.countP_eq_zero]
  intro g hg hng
  obtain ⟨b, hb⟩ := ImportDef.exists_bucket_of_mem_groups hg (of_decide_eq_true hng)
  exact hn ((mem_names_iff b).1 hb).1

/-- A name that was mentioned and goes to a bucket is listed once. -/
theorem countP_groups_of_mem (hfiles : (definitions.map (·.1)).Nodup)
    (hcategories : ∀ d ∈ definitions, ∀ c : Category, d.1 ≠ c.name)
    (hexported : n ∉ ImportDef.notExported) (hn : n ∈ names) {b : String}
    (hb : Ledger.bucketOf? definitions n = some b) :
    (ImportDef.groups ((Ledger.empty definitions ignored).recordAll names)).countP
      (n ∈ ·.listed) = 1 := by
  have hdefinitions := Ledger.definitions_recordAll (Ledger.empty definitions ignored) names
  refine ImportDef.countP_groups (b := b) ?_ ?_ hexported ?_ fun b' => ?_
  · rwa [hdefinitions]
  · rwa [hdefinitions]
  · rwa [hdefinitions]
  · rw [mem_names_iff, hb, Option.some.injEq]
    exact ⟨fun h => h.2.symm, fun h => ⟨hn, h.symm⟩⟩

end

/-! ## Closed documents -/

theorem closed_document {r : Registry} {definitions : Definitions}
    (hfiles : (definitions.map (·.1)).Nodup)
    (hcategories : ∀ d ∈ definitions, ∀ c : Category, d.1 ≠ c.name)
    (hspelt : ∀ e ∈ r.entries, e.2.Spelt (r.Offers definitions)) {d : Document}
    (h : document r definitions = .ok d) : d.Closed := by
  obtain ⟨entries, hentries, hok, hgroups⟩ := exists_of_document h
  have hnamed : ∀ s ∈ namedEntries entries, s.Spelt (r.Offers definitions) := by
    intro s hs
    obtain ⟨⟨e, he, rfl⟩, _⟩ := (mem_namedEntries hentries).1 hs
    exact hspelt e he
  have hdeclared : d.declared = namesOf (namedEntries entries) :=
    declared_eq (fun s hs => ((mem_namedEntries hentries).1 hs).2) hok
  have separate : ∀ n ∈ d.declared, d.importCount n = 0 := by
    intro n hn
    rw [hdeclared] at hn
    rw [Document.importCount, hgroups]
    exact countP_groups_of_not_mem fun hm => not_mem_namesOf hm hn
  refine ⟨fun n hn => ?_, separate⟩
  obtain ⟨x, hx, hn⟩ := List.mem_flatMap.1 hn
  obtain ⟨hoffers, hmet⟩ :=
    mem_names_of_mem_references (r.vocabulary_offers definitions) hspelt hnamed hok hx hn
  by_cases hmem : n ∈ d.declared
  · exact .inl ⟨hmem, separate n hmem⟩
  · refine .inr ⟨hmem, ?_⟩
    rw [hdeclared] at hmem
    have hmentioned := hmet.resolve_left hmem
    rcases hoffers.declared_or_bucket with ⟨e, he, halias⟩ | ⟨b, hb⟩
    · -- every entry with a declared name is declared
      have hentry : e.2 ∈ namedEntries entries :=
        (mem_namedEntries hentries).2 ⟨⟨e, he, rfl⟩, by rw [halias]; rfl⟩
      exact absurd (List.mem_filterMap.2 ⟨e.2, hentry, halias⟩) hmem
    · rw [Document.importCount, hgroups]
      exact countP_groups_of_mem hfiles hcategories hoffers.exported hmentioned hb

/-- If all names that the entries bring in are offered, the lookup document is closed. Its text is the
lines of its import groups and its declarations, one below the other. Names are meant to be texts;
one of another kind reads as missing (`Json.label?`). -/
theorem closed_of_source {r : Registry} {definitions : Definitions}
    (hfiles : (definitions.map (·.1)).Nodup)
    (hcategories : ∀ d ∈ definitions, ∀ c : Category, d.1 ≠ c.name)
    (hspelt : ∀ e ∈ r.entries, e.2.Spelt (r.Offers definitions)) {text : String}
    (h : source r definitions = .ok text) :
    ∃ d, document r definitions = .ok d ∧ text = d.print ∧ d.Closed ∧
      Source.Holds text (d.groups.map ImportDef.line) (d.declarations.map Declaration.print) := by
  obtain ⟨d, hdocument, rfl⟩ := exists_of_source h
  exact ⟨d, hdocument, rfl, closed_document hfiles hcategories hspelt hdocument, d.holds_print⟩

/-- A structure that holds a plain type with a label, an entry without a name, and itself. -/
def pointRegistry : Registry where
  entries :=
    [(.number 0 0,
      .group { tag := .struct, type := "Point", lookupName := .str "Point", lookupIndex := .int 0 }
        [.leaf { tag := .plain, type := "u32", name := .str "x", typeName := .str "Distance" },
         .leaf { tag := .si, type := "Lookup1", name := .str "tag" },
         .single { tag := .option, type := "Option<Point>", name := .str "next" }
          (.leaf { tag := .plain, type := "Point", lookupName := .str "Point" })]),
     (.number 1 0,
      .single { tag := .vec, type := "Vec<Balance>", lookupIndex := .int 1 }
        (.leaf { tag := .plain, type := "Balance" }))]

theorem spelt_pointRegistry : ∀ e ∈ pointRegistry.entries,
    e.2.Spelt (pointRegistry.Offers [("./own", ["Balance"])]) := by
  have offered : ∀ n ∈ ["Point", "u32", "Balance"],
      pointRegistry.Offers [("./own", ["Balance"])] n := by
    have hall : ∀ n ∈ ["Point", "u32", "Balance"],
        n.toList ≠ [] ∧ n.toList.all Text.isWordChar = true ∧ n ∉ ImportDef.notExported ∧
          (n ∈ Category.builtins ∨ (∃ e ∈ pointRegistry.entries, e.2.head.alias? = some n) ∨
            ∃ d ∈ [("./own", ["Balance"])], n ∈ d.2) := by
      decide +kernel
    intro n hn
    obtain ⟨hne, hword, hexported, hknown⟩ := hall n hn
    exact ⟨hne, Text.isWord_of_all hword, hexported, hknown⟩
  have brought : ∀ e ∈ pointRegistry.entries, ∀ h ∈ e.2.heads,
      (∀ n ∈ h.alias?, n ∈ ["Point", "u32", "Balance"]) ∧
        (h.tag = .plain → h.type ∈ ["Point", "u32", "Balance"]) := by
    decide +kernel
  intro e he h hh
  obtain ⟨hdeclared, hplain⟩ := brought e he h hh
  exact ⟨fun n hn => offered n (hdeclared n hn), fun ht => offered _ (hplain ht)⟩

/-- `Point` is declared, `u32`, `As`, `Option`, `Struct` and `Vec` come from the library, and
`Balance` from a definition file. -/
theorem closed_pointRegistry :
    ∃ text d, source pointRegistry [("./own", ["Balance"])] = .ok text ∧
      document pointRegistry [("./own", ["Balance"])] = .ok d ∧ text = d.print ∧ d.Closed ∧
      Source.Holds text (d.groups.map ImportDef.line) (d.declarations.map Declaration.print) := by
  have hok : (source pointRegistry [("./own", ["Balance"])]).toOption.isSome = true := by
    decide +kernel
  have hfiles : ([("./own", ["Balance"])].map (·.1)).Nodup := by decide
  have hcategories : ∀ d ∈ [("./own", ["Balance"])], ∀ c : Category, d.1 ≠ c.name := by
    intro d hd c
    obtain rfl := List.mem_singleton.1 hd
    cases c <;> decide
  cases htext : source pointRegistry [("./own", ["Balance"])] with
  | error e =>
    rw [htext] at hok
    cases hok
  | ok text =>
    obtain ⟨d, hd⟩ := closed_of_source hfiles hcategories spelt_pointRegistry htext
    exact ⟨text, d, rfl, hd⟩

end Lookup

end ChainTypings
