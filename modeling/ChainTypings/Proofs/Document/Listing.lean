import ChainTypings.Command.Generate
import ChainTypings.Proofs.Document.Closed
import ChainTypings.Proofs.Document.Indexed
import ChainTypings.Proofs.Render.Given
import ChainTypings.Proofs.Session.Order
import ChainTypings.Proofs.Sorting.Stable

/-!
# What the lookup document lists

The lookup document of entries with distinct integer indices has one block for each entry with a
declared name, in the order of the names and, among equal names, of the indices. Each block is what
declaring its entry alone gives, on a ledger that holds nothing (`Lookup.Lists`). The document is
the same in whatever order the entries are given (`lists_source`).
-/

namespace ChainTypings

namespace Trail

variable {α β : Type}

/-- The results of going through a list stand in the order of its steps. -/
theorem forall₂_of_mapEach {f : α → Trail β} {as : List α} {bs : List β}
    (h : (mapEach f as).outcome = .ok bs) :
    List.Forall₂ (fun a b => (f a).outcome = .ok b) as bs := by
  induction as generalizing bs with
  | nil =>
    obtain rfl := Except.ok.inj h
    exact .nil
  | cons a as ih =>
    obtain ⟨b, hb, h⟩ := ok_andThen.1 h
    obtain ⟨bs', hbs', rfl⟩ := ok_map.1 h
    exact .cons hb (ih hbs')

theorem names_map (t : Trail α) (g : α → β) : (t.andThen fun a => done (g a)).names = t.names := by
  rw [names_bind]
  split
  · exact List.append_nil _
  · rfl

/-- Going through a list to its end mentions the names of all steps. -/
theorem names_mapEach {f : α → Trail β} {as : List α} {bs : List β}
    (h : (mapEach f as).outcome = .ok bs) :
    (mapEach f as).names = as.flatMap fun a => (f a).names := by
  induction as generalizing bs with
  | nil => rfl
  | cons a as ih =>
    obtain ⟨b, hb, h⟩ := ok_andThen.1 h
    obtain ⟨bs', hbs', _⟩ := ok_map.1 h
    rw [mapEach, bind_eq, names_bind, hb, List.flatMap_cons, ← ih hbs']
    exact congrArg _ (names_map (mapEach f as) (b :: ·))

end Trail

namespace Lookup

open Registry (sorted)
open Generate (definedNames)

variable {shapes : List Shape} {r : Registry} {ds : Definitions}

/-! ## The order of the declarations -/

/-- The name under which a shape is declared; empty if there is none. -/
abbrev declaredName (s : Shape) : String := s.head.alias?.getD ""

/-- The name of the one shape is less than that of the other, or it is the same and the index is
less. -/
def Precedes (a b : Shape) : Prop :=
  declaredName a < declaredName b ∨ declaredName a = declaredName b ∧ a.place < b.place

instance : DecidableRel Precedes := fun _ _ => inferInstanceAs (Decidable (_ ∨ _ ∧ _))

theorem Precedes.asymm {a b : Shape} (h : Precedes a b) : ¬ Precedes b a := by
  rcases h with h | ⟨hname, h⟩
  · rintro (h' | ⟨hname', -⟩)
    · exact String.lt_asymm h h'
    · exact String.lt_irrefl _ (hname' ▸ h)
  · rintro (h' | ⟨-, h'⟩)
    · exact String.lt_irrefl _ (hname ▸ h')
    · exact Int.lt_asymm h h'

theorem perm_namedEntries (shapes : List Shape) :
    (namedEntries (sorted shapes)).Perm (shapes.filter fun s => s.head.alias?.isSome) :=
  (List.mergeSort_perm _ _).trans ((Registry.perm_sorted shapes).filter _)

/-- The entries are declared in the order of the names and then of the indices. -/
theorem precedes_namedEntries (h : AreIndexed shapes) :
    (namedEntries (sorted shapes)).Pairwise Precedes := by
  have htrans : ∀ a b c, nameLE a b = true → nameLE b c = true → nameLE a c = true :=
    fun _ _ _ => ImportDef.textLE_trans _ _ _
  have htotal : ∀ a b, (nameLE a b || nameLE b a) = true := fun _ _ => ImportDef.textLE_total _ _
  have hplaces : ((sorted shapes).filter fun s => s.head.alias?.isSome).Pairwise
      fun a b => a.place < b.place := (Registry.ascending_sorted h).filter _
  rw [List.pairwise_iff_forall_sublist]
  intro a b hab
  have hle : nameLE a b = true :=
    List.pairwise_iff_forall_sublist.1 (List.pairwise_mergeSort htrans htotal _) hab
  by_cases hname : declaredName a = declaredName b
  · -- the entries of one name keep the order of their indices
    have hclass : ∀ x y, decide (declaredName x = declaredName b) = true →
        decide (declaredName y = declaredName b) = true → nameLE x y = true := by
      intro x y hx hy
      have hxy : declaredName x = declaredName y :=
        (of_decide_eq_true hx).trans (of_decide_eq_true hy).symm
      show ImportDef.textLE (declaredName x) (declaredName y) = true
      exact ImportDef.textLE_iff.2 (hxy ▸ String.le_refl _)
    have hkept := hab.filter fun s => decide (declaredName s = declaredName b)
    rw [namedEntries, filter_mergeSort htrans htotal hclass] at hkept
    simp only [hname, List.filter_cons, decide_true, if_true, List.filter_nil] at hkept
    exact .inr ⟨hname, List.pairwise_iff_forall_sublist.1 (hplaces.filter _) hkept⟩
  · exact .inl (Std.lt_of_le_of_ne (ImportDef.textLE_iff.1 hle) hname)

/-- There is one such order. -/
theorem namedEntries_eq (h : AreIndexed shapes) {named : List Shape}
    (hperm : named.Perm (shapes.filter fun s => s.head.alias?.isSome))
    (hordered : named.Pairwise Precedes) : namedEntries (sorted shapes) = named := by
  refine List.Perm.eq_of_pairwise ?_ (precedes_namedEntries h) hordered
    ((perm_namedEntries shapes).trans hperm.symm)
  intro a b _ _ hab hba
  exact absurd hba hab.asymm

/-! ## Blocks -/

/-- The text lists the shapes: it has a block for each with a declared name, in order, each the one
that declaring the shape alone gives, after the import lines of a session that declares them all. If
the annotations of a shape are of the kinds that they are declared with, it has a declared name
whenever the annotation for it holds anything. -/
structure Lists (r : Registry) (ds : Definitions) (shapes named : List Shape)
    (blocks : List String) (text : String) : Prop where
  complete : named.Perm (shapes.filter fun s => s.head.alias?.isSome)
  typed : ∀ s ∈ shapes, s.head.isTyped = true → (s ∈ named ↔ s.head.lookupName.isEmpty = false)
  ordered : named.Pairwise Precedes
  alone : List.Forall₂ (fun s block => ∀ ignored, (∀ n, n ∈ ignored ↔ n ∈ namesOf shapes) →
    (Call.declare r s).outcome (.empty ds ignored) = .ok (some block)) named blocks
  assembled : text = Source.assemble
    (ImportDef.lines ((Ledger.empty ds (namesOf named)).afterAll (named.map (Call.declare r))) [])
    blocks
  held : Source.Holds text
    (ImportDef.lines ((Ledger.empty ds (namesOf named)).afterAll (named.map (Call.declare r))) [])
    blocks

theorem mem_namesOf_named {named : List Shape}
    (h : named.Perm (shapes.filter fun s => s.head.alias?.isSome)) {n : String} :
    n ∈ namesOf named ↔ n ∈ namesOf shapes := by
  simp only [namesOf, List.mem_filterMap, h.mem_iff, List.mem_filter]
  constructor
  · rintro ⟨s, ⟨hs, _⟩, hn⟩
    exact ⟨s, hs, hn⟩
  · rintro ⟨s, hs, hn⟩
    exact ⟨s, ⟨hs, by rw [hn]; rfl⟩, hn⟩

/-- A shape whose annotations are of the declared kinds is declared if that of its name holds
anything. -/
theorem mem_iff_of_isTyped {named : List Shape}
    (h : named.Perm (shapes.filter fun s => s.head.alias?.isSome)) {s : Shape} (hs : s ∈ shapes)
    (htyped : s.head.isTyped = true) : s ∈ named ↔ s.head.lookupName.isEmpty = false := by
  rw [h.mem_iff, List.mem_filter, ← Bool.not_eq_true, ← Head.alias?_eq_none_iff htyped,
    Option.isSome_iff_ne_none]
  exact and_iff_right hs

theorem exists_lists (h : AreIndexed shapes) (hr : r.entries = shapes.map Registry.entryOf)
    {text : String} (htext : source r ds = .ok text) :
    ∃ named blocks, Lists r ds shapes named blocks text := by
  obtain ⟨d, hdocument, rfl⟩ := exists_of_source htext
  obtain ⟨entries, hentries, hok, hgroups⟩ := exists_of_document hdocument
  obtain rfl := Option.some.inj ((Registry.shapes?_eq hr).symm.trans hentries)
  have hperm := perm_namedEntries shapes
  generalize hnamed : namedEntries (sorted shapes) = named at *
  have hnames : (declareAll r named).names =
      (named.map (Call.declare r)).flatMap fun c => (c.trail (namesOf named)).names := by
    rw [declareAll, Trail.names_mapEach hok, List.flatMap_map]
    exact congrArg (named.flatMap ·) (funext fun s => (Trail.names_map _ _).symm)
  have hlines : d.groups.map ImportDef.line = ImportDef.lines
      ((Ledger.empty ds (namesOf named)).afterAll (named.map (Call.declare r))) [] := by
    rw [hgroups, hnames, Ledger.afterAll_eq, ImportDef.lines_eq_map]
    rfl
  refine ⟨named, d.declarations.map Declaration.print, hperm,
    fun s hs htyped => mem_iff_of_isTyped hperm hs htyped, ?_, ?_, hlines ▸ rfl,
    hlines ▸ d.holds_print⟩
  · exact hnamed ▸ precedes_namedEntries h
  · rw [List.forall₂_map_right_iff]
    refine (Trail.forall₂_of_mapEach hok).imp fun s x hx ignored hignored => ?_
    have hsame : ∀ n, n ∈ (Ledger.empty ds ignored).ignored ↔ n ∈ namesOf named := fun n =>
      (hignored n).trans (mem_namesOf_named hperm).symm
    rw [(Call.declare r s).outcome_eq hsame]
    exact Trail.ok_map.2 ⟨x, hx, rfl⟩

/-- There is a document if the entries with a declared name can be declared. -/
theorem exists_source (ds : Definitions) (h : AreIndexed shapes)
    (hr : r.entries = shapes.map Registry.entryOf)
    {named : List Shape} (hperm : named.Perm (shapes.filter fun s => s.head.alias?.isSome))
    (hordered : named.Pairwise Precedes)
    (hok : (declareAll r named).outcome.toOption.isSome = true) :
    ∃ text, source r ds = .ok text := by
  rw [source_eq, document, Registry.shapes?_eq hr]
  dsimp only
  rw [namedEntries_eq h hperm hordered]
  obtain ⟨declarations, hdeclared⟩ := exists_ok_of_isSome hok
  rw [hdeclared]
  exact ⟨_, rfl⟩

/-- Entries with distinct integer indices make a registry. If there is a lookup document, it lists
them; and whether or not there is one, it is the same in whatever order they are given. Names are
meant to be texts; one of another kind reads as missing, so that its entry is not listed
(`Json.label?`). -/
theorem lists_source {m : Metadata} (h : AreIndexed m.entries) (ds : Definitions) :
    ∃ r, Registry.ofShapes m.entries (definedNames ds) = .ok r ∧
      (∀ text, source r ds = .ok text → ∃ named blocks, Lists r ds m.entries named blocks text) ∧
      ∀ m' : Metadata, m'.entries.Perm m.entries →
        ∃ r', Registry.ofShapes m'.entries (definedNames ds) = .ok r' ∧
          source r' ds = source r ds := by
  refine ⟨_, Registry.ofShapes_eq h _, fun text htext => exists_lists h rfl htext, ?_⟩
  intro m' hperm
  refine ⟨_, Registry.ofShapes_eq (h.perm hperm) _, ?_⟩
  refine source_congr (Registry.alike_of_perm h hperm rfl rfl) ?_ ds
  rw [Registry.shapes?_eq rfl, Registry.shapes?_eq rfl, Registry.sorted_eq_of_perm h hperm]

/-- A structure with a field that leads to another entry. -/
def vote : Shape :=
  .group { tag := .struct, type := "Vote", lookupName := .str "Vote", lookupIndex := .int 7 }
    [.leaf { tag := .si, type := "Lookup4", name := .str "stake" }]

/-- An entry of the same name under a lesser index. -/
def oldVote : Shape :=
  .single { tag := .vec, type := "Vec<u8>", lookupName := .str "Vote", lookupIndex := .int 2 }
    (.leaf { tag := .plain, type := "u8" })

/-- An entry that goes before both. -/
def ballot : Shape :=
  .single { tag := .option, type := "Option<Vote>", lookupName := .str "Ballot",
            lookupIndex := .int 9 }
    (.leaf { tag := .plain, type := "Vote", lookupName := .str "Vote" })

/-- Metadata of these entries, and of one without a name. -/
def election : Metadata where
  version := 14
  entries := [vote, ballot, oldVote, .leaf { tag := .plain, type := "u128", lookupIndex := .int 4 }]
  pallets := []

/-- Their registry. -/
def electionRegistry : Registry where
  entries := election.entries.map Registry.entryOf
  known := Category.builtins ++ ["Vote", "Ballot", "Vote"]

theorem areIndexed_election : AreIndexed election.entries := by
  refine ⟨fun s hs => ?_, by decide⟩
  simp only [election, List.mem_cons, List.not_mem_nil, or_false] at hs
  rcases hs with rfl | rfl | rfl | rfl
  all_goals rfl

/-- The lookup document lists the named entries, and it is the same for the opposite order. -/
theorem lists_election :
    Registry.ofShapes election.entries (definedNames []) = .ok electionRegistry ∧
      ∃ text blocks, source electionRegistry [] = .ok text ∧
        Lists electionRegistry [] election.entries [ballot, oldVote, vote] blocks text ∧
        ∃ r', Registry.ofShapes election.entries.reverse (definedNames []) = .ok r' ∧
          source r' [] = .ok text := by
  have hmade : Registry.ofShapes election.entries (definedNames []) = .ok electionRegistry := rfl
  have hperm : [ballot, oldVote, vote].Perm
      (election.entries.filter fun s => s.head.alias?.isSome) :=
    @List.perm_append_comm _ [ballot, oldVote] [vote]
  have hordered : [ballot, oldVote, vote].Pairwise Precedes := by decide +kernel
  have hok :
      (declareAll electionRegistry [ballot, oldVote, vote]).outcome.toOption.isSome = true := by
    decide +kernel
  obtain ⟨text, htext⟩ := exists_source [] areIndexed_election rfl hperm hordered hok
  obtain ⟨r, hr, hlists, hsame⟩ := lists_source areIndexed_election []
  obtain rfl := Except.ok.inj (hmade.symm.trans hr)
  obtain ⟨named, blocks, hblocks⟩ := hlists text htext
  have hnamed : named = [ballot, oldVote, vote] :=
    (namedEntries_eq areIndexed_election hblocks.complete hblocks.ordered).symm.trans
      (namedEntries_eq areIndexed_election hperm hordered)
  obtain ⟨r', hr', hsource⟩ :=
    hsame { election with entries := election.entries.reverse } (List.reverse_perm _)
  exact ⟨hmade, text, blocks, htext, hnamed ▸ hblocks, r', hr', hsource.trans htext⟩

end Lookup

end ChainTypings
