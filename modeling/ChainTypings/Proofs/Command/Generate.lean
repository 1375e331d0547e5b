import ChainTypings.Proofs.Command.Foreseen
import ChainTypings.Proofs.Shape.Description

/-!
# What a generation fails of

If the annotations of shapes are of the kinds that they are declared with, and rendering goes round
in no circle, only two things make a generation end otherwise than it is meant to
(`isForeseen_or_of_failure`). One is a version that is no integer, the other a text with values in
it, of which one has a wrong form; an ordinary text has none. Either does, and so does an annotation
of another kind (`strays_unversioned`).
-/

namespace ChainTypings

/-- The plan fails in no other way. -/
def Plan.AllFailures (p : Failure → Prop) (plan : Plan) : Prop :=
  ∀ f, plan.failure = some f → p f

namespace Plan.AllFailures

variable {p : Failure → Prop}

theorem single (step : Step) : AllFailures p (Plan.single step) := by
  intro f hf
  cases hf

theorem fail {f : Failure} (h : p f) : AllFailures p (Plan.fail f) := by
  intro f' hf
  obtain rfl := Option.some.inj hf
  exact h

theorem andThen {first second : Plan} (h : first.AllFailures p) (h' : second.AllFailures p) :
    (first.andThen second).AllFailures p := by
  intro f hf
  unfold Plan.andThen at hf
  split at hf
  · exact h' f hf
  · next hfirst =>
    obtain rfl := Option.some.inj hf
    exact h _ hfirst

end Plan.AllFailures

namespace Generate

open Failure

variable {c : Config} {directory : Path} {ds : Definitions} {m : Metadata} {r : Registry}
  {ordinary : Prop}

theorem allFailures_writePlan (hdirectory : c.outputDir = .path directory) (d : Document)
    (p : Failure → Prop) : (writePlan c d).AllFailures p := by
  rw [writePlan, hdirectory]
  exact .single _

theorem isExcused_lookupPlan (hdirectory : c.outputDir = .path directory)
    (hordered : r.shapes?.isSome = true) (hacyclic : r.Acyclic)
    (hr : ∀ e ∈ r.entries, e.2.Vetted ordinary) :
    (lookupPlan c ds r).AllFailures (IsExcused ordinary) := by
  unfold lookupPlan
  split
  · next hsource =>
    rcases Lookup.source_eq_error hsource with ⟨_, hnone⟩ | ⟨_, h, _⟩
    · rw [hnone] at hordered
      cases hordered
    · cases h
  · next e hsource =>
    rcases Lookup.source_eq_error hsource with ⟨h, _⟩ | ⟨e', h, entry, hentry, ignored, he⟩
    · cases h
    · cases h
      exact .fail (Scope.isExcused_ofShape (s := ⟨r, ignored⟩) hacyclic hr (hr entry hentry) e he)
  · exact allFailures_writePlan hdirectory _ _

theorem isExcused_errorsPlan (hdirectory : c.outputDir = .path directory)
    (hplaces : ∀ q ∈ m.pallets, Metadata.isPlace q.errors = true) :
    (errorsPlan c m r).AllFailures (IsExcused ordinary) := by
  unfold errorsPlan
  split
  · next e hcollect =>
    refine .fail ?_
    have heach := ErrorModule.collect_eq_error hcollect
    rcases ErrorModule.ofEachPallet_eq_error heach with ⟨q, hq, he⟩ | ⟨shape, reason, rfl⟩
    · exact Scope.isExcused_lookup (Metadata.key?_ne_none_of_isPlace (hplaces q hq)) he
    · exact Scope.isExcused_unsupported shape reason
  · exact (Plan.AllFailures.single _).andThen (allFailures_writePlan hdirectory _ _)

theorem isExcused_documentsPlan (hdirectory : c.outputDir = .path directory)
    (hordered : r.shapes?.isSome = true) (hacyclic : r.Acyclic)
    (hr : ∀ e ∈ r.entries, e.2.Vetted ordinary)
    (hplaces : ∀ q ∈ m.pallets, Metadata.isPlace q.errors = true) :
    (documentsPlan c ds m r).AllFailures (IsExcused ordinary) := by
  have skip : (⟨[], none⟩ : Plan).AllFailures (IsExcused ordinary) := by
    intro f hf
    cases hf
  unfold documentsPlan
  refine .andThen ?_ ?_
  · split
    · exact isExcused_lookupPlan hdirectory hordered hacyclic hr
    · exact skip
  · split
    · exact isExcused_errorsPlan hdirectory hplaces
    · exact skip

/-- With annotations of the declared kinds and without cycles, the plan for metadata has excused
failures only. -/
theorem isExcused_metadataPlan (hdirectory : c.outputDir = .path directory) (htyped : m.IsTyped)
    (hplaces : ∀ q ∈ m.pallets, Metadata.isPlace q.errors = true)
    (hacyclic : ∀ r, Registry.ofShapes m.entries (definedNames ds) = .ok r → r.Acyclic) :
    (metadataPlan c ds m).AllFailures (IsExcused m.IsOrdinary) := by
  have hindex : ∀ s ∈ m.entries, Metadata.isPlace s.head.lookupIndex = true := fun s hs =>
    Head.isPlace_of_isTyped (htyped s hs _ s.head_mem_heads)
  unfold metadataPlan
  split
  · next e hmade =>
    refine .fail (.inl ?_)
    obtain ⟨s, hs, rfl | rfl | ⟨_, hnone⟩⟩ :=
      Registry.addEntries_eq_error (Registry.ofShapes_eq_error hmade)
    · rfl
    · rfl
    · exact absurd hnone (Metadata.key?_ne_none_of_isPlace (hindex s hs))
  · next r hmade =>
    have hr : ∀ e ∈ r.entries, e.2.Vetted m.IsOrdinary := by
      intro e he k hk
      obtain ⟨s, hs, rfl, _⟩ := Registry.exists_of_mem_ofShapes hmade he
      exact ⟨htyped _ hs k hk, fun ho => ho _ hs k hk⟩
    have hordered : r.shapes?.isSome = true := by
      refine Registry.shapes?_isSome fun e he => ?_
      obtain ⟨s, hs, _, hkey, habsent⟩ := Registry.exists_of_mem_ofShapes hmade he
      rcases Metadata.key?_of_isPlace (hindex s hs) with h | ⟨n, h⟩
      · exact absurd (Option.some.inj (hkey.symm.trans h)) habsent
      · exact ⟨n, Option.some.inj (hkey.symm.trans h)⟩
    have hregistry : (registryPlan m r).AllFailures (IsExcused m.IsOrdinary) := by
      obtain ⟨shapes, hshapes⟩ := Option.isSome_iff_exists.1 hordered
      rw [registryPlan, hshapes]
      exact .single _
    exact hregistry.andThen
      ((isExcused_documentsPlan hdirectory hordered (hacyclic r hmade) hr hplaces).andThen
        (.single _))

/-! ## Documents -/

/-- The plan for a metadata document. -/
def ofValue (c : Config) (ds : Definitions) (v : Json) : Plan :=
  match Metadata.ofJson v with
  | .error e => .fail (.metadata e)
  | .ok m => metadataPlan c ds m

/-- The plan for a file is the one for the document that it holds, after a first line. -/
theorem plan_eq_ofValue {bytes : List UInt8} {text : String} {v : Json}
    (htext : Text.ofFileBytes bytes = .ok text) (hread : Json.read text = .ok v) :
    plan c ds (.ok bytes) =
      (Plan.single (.say ("Parsing: " ++ c.metadata.text ++ "\n"))).andThen (ofValue c ds v) := by
  simp only [plan, metadataOfBytes, metadataOfText, htext, hread, ofValue]
  cases Metadata.ofJson v with
  | error e => rfl
  | ok m => rfl

/-- Where annotations are of the kinds that they are declared with and no indirection leads back, a
generation that fails has failed in a foreseen way, for a version that is no integer, or for a value
of a wrong form in a text, and then some text is not ordinary. -/
theorem isForeseen_or_of_failure (hdirectory : c.outputDir = .path directory) {v : Json}
    (hv : ∀ m, Metadata.ofJson v = .ok m → m.IsTyped ∧
      ∀ r, Registry.ofShapes m.entries (definedNames ds) = .ok r → r.Acyclic) {f : Failure}
    (hf : (ofValue c ds v).failure = some f) :
    f.isForeseen = true ∨
      (∃ cause, Metadata.ofJson v = .error (.version cause) ∧ f = .metadata (.version cause)) ∨
      ∃ m, Metadata.ofJson v = .ok m ∧ ¬ m.IsOrdinary ∧
        ∃ cause, cause.isResolution = false ∧ f = .render (.parse cause) := by
  unfold ofValue at hf
  split at hf
  · next e he =>
    obtain rfl := Option.some.inj hf
    cases e with
    | version cause => exact .inr (.inl ⟨cause, he, rfl⟩)
    | _ => exact .inl rfl
  · next m hm =>
    obtain ⟨htyped, hacyclic⟩ := hv m hm
    have hall := isExcused_metadataPlan hdirectory htyped (Metadata.isPlace_of_ofJson hm) hacyclic
    rcases hall f hf with h | ⟨hordinary, cause, rfl⟩
    · exact .inl h
    · cases hcause : cause.isResolution with
      | true => exact .inl (isForeseen_parse hcause)
      | false => exact .inr (.inr ⟨m, hm, hordinary, cause, hcause, rfl⟩)

/-- A configuration for all documents. -/
def allKinds : Config where
  metadata := .ofString "metadata.json"
  outputDir := .path (.ofString "out")
  kind := some .all
  strict := false
  extraTypes := none

/-- An option, under the name `Slot`, of what stands at another place. -/
def slot : Shape :=
  .single { tag := .option, type := "Option<Lookup1>", lookupName := .str "Slot",
            lookupIndex := .int 0 }
    (.leaf { tag := .si, type := "Lookup1", lookupIndex := .int 1 })

/-- A range, for which there is no rule. -/
def era : Shape := .leaf { tag := .range, type := "Range<u8>", lookupIndex := .int 1 }

/-- The registry in which the option is one of the range. -/
def slotRegistry : Registry where
  entries := [(.number 0 0, slot), (.number 1 0, era)]
  known := Category.builtins ++ ["Slot"]

theorem acyclic_slotRegistry : slotRegistry.Acyclic := by
  have hrank : ∀ e ∈ slotRegistry.entries, ∀ k ∈ e.2.heads, k.tag = .si →
      (Scope.target ⟨slotRegistry, []⟩ k).toOption.all
        (fun entry => entry.heads.length < e.2.heads.length) = true := by
    decide +kernel
  refine Registry.acyclic_of_rank (fun s => s.heads.length) fun e he k hk htag entry htarget => ?_
  have hlt := hrank e he k hk htag
  rw [htarget] at hlt
  exact of_decide_eq_true hlt

/-- A document of entries only. -/
def documentOf (entries : List Shape) : Json := .obj [("lookup", .arr (Shape.toJsonList entries))]

theorem ofJson_documentOf (entries : List Shape) :
    Metadata.ofJson (documentOf entries) = .ok ⟨14, entries, []⟩ := by
  have hentries : Shape.ofJsonList (Shape.toJsonList entries) = .ok entries :=
    Shape.ofJsonList_toJsonList fun s _ => s.ofJson_toJson
  have hread : Metadata.ofJson (documentOf entries) =
      (Shape.ofJsonList (Shape.toJsonList entries)).mapError MetadataError.entry >>=
        fun ss => Except.ok ⟨14, ss, []⟩ := rfl
  rw [hread, hentries]
  rfl

/-- The option cannot be declared, and that is foreseen. -/
theorem isForeseen_slot :
    ∃ f, (ofValue allKinds [] (documentOf [slot, era])).failure = some f ∧ f.isForeseen = true := by
  have hread : Metadata.ofJson (documentOf [slot, era]) = .ok ⟨14, [slot, era], []⟩ :=
    ofJson_documentOf _
  have hmade : Registry.ofShapes [slot, era] (definedNames []) = .ok slotRegistry := rfl
  have htyped : ∀ s ∈ [slot, era], ∀ k ∈ s.heads, k.isTyped = true := by decide +kernel
  have hordinary : ∀ s ∈ [slot, era], ∀ k ∈ s.heads, k.IsOrdinary := by decide +kernel
  have hplan : ofValue allKinds [] (documentOf [slot, era]) =
      metadataPlan allKinds [] ⟨14, [slot, era], []⟩ := by
    rw [ofValue, hread]
  have hfails : (metadataPlan allKinds [] ⟨14, [slot, era], []⟩).failure.isSome = true := by
    decide +kernel
  obtain ⟨f, hf⟩ := Option.isSome_iff_exists.1 hfails
  rw [← hplan] at hf
  refine ⟨f, hf, ?_⟩
  have hv : ∀ m, Metadata.ofJson (documentOf [slot, era]) = .ok m → m.IsTyped ∧
      ∀ r, Registry.ofShapes m.entries (definedNames []) = .ok r → r.Acyclic := by
    intro m hm
    obtain rfl := Except.ok.inj (hread.symm.trans hm)
    refine ⟨htyped, fun r hr => ?_⟩
    obtain rfl := Except.ok.inj (hmade.symm.trans hr)
    exact acyclic_slotRegistry
  rcases isForeseen_or_of_failure (c := allKinds) rfl hv hf with h | ⟨_, h, _⟩ | ⟨m, h, hstray, _⟩
  · exact h
  · cases hread.symm.trans h
  · obtain rfl := Except.ok.inj (hread.symm.trans h)
    exact absurd hordinary hstray

/-- No indirection in the document leads back, but a generation from it fails in a way that is not
foreseen. -/
structure Strays (v : Json) : Prop where
  acyclic : ∀ m r, Metadata.ofJson v = .ok m →
    Registry.ofShapes m.entries (definedNames []) = .ok r → r.Acyclic
  unforeseen : ∃ f, (ofValue allKinds [] v).failure = some f ∧ f.isForeseen = false

/-- Without indirections none leads back. -/
theorem strays_of_direct {v : Json}
    (hdirect : (Metadata.ofJson v).toOption.all
      (fun m => m.entries.all fun s => s.heads.all fun k => k.tag ≠ .si) = true)
    (hfails : (ofValue allKinds [] v).failure.any (fun f => !f.isForeseen) = true) :
    Strays v := by
  constructor
  · intro m r hm hmade
    rw [hm] at hdirect
    simp only [Except.toOption, Option.all_some, List.all_eq_true] at hdirect
    refine Registry.acyclic_of_rank (fun _ => 0) fun e he k hk htag => ?_
    obtain ⟨s, hs, rfl, _⟩ := Registry.exists_of_mem_ofShapes hmade he
    exact absurd htag (of_decide_eq_true (hdirect _ hs k hk))
  · obtain ⟨f, hf, hforeseen⟩ := (Option.any_eq_true _ _).1 hfails
    exact ⟨f, hf, by simpa using hforeseen⟩

/-- A document with a version that is no integer. -/
def unversioned : Json := .obj [("version", .null)]

/-- A document of an entry under a list. -/
def listedPlace : Json := documentOf [.leaf { tag := .plain, type := "u8", lookupIndex := .arr [] }]

/-- A document in which a digit sign that is no digit stands for a count. -/
def squaredCount : Json :=
  documentOf [.leaf { tag := .plain, type := "[u8;²]", lookupName := .str "Hash",
                      lookupIndex := .int 0 }]

/-- What is excepted does happen, and so does what annotations of other kinds lead to. -/
theorem strays_unversioned : Strays unversioned ∧ Strays listedPlace ∧ Strays squaredCount := by
  refine ⟨strays_of_direct ?_ ?_, strays_of_direct ?_ ?_, strays_of_direct ?_ ?_⟩
  all_goals decide +kernel

end Generate

end ChainTypings
