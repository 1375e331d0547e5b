import ChainTypings.Proofs.Command.Generate
import ChainTypings.Proofs.Files.Writing

/-!
# What a failed generation leaves

A generation that fails in a foreseen way has as a rule changed no file. The exception is one for
documents of all kinds whose errors cannot be collected: the lookup document is written by then
(`files_eq_or_writes_lookup`), and that does happen (`half_written_unplacedErrors`).
-/

namespace ChainTypings

namespace Plan

variable {directory : Path} {p q : Plan} {f : Failure} {r : Result} {steps : List Step}

/-! ## Carrying out -/

theorem step_say (hr : r.failure = none) (text : String) :
    r.step directory (.say text) = { r with said := r.said ++ text } := by
  simp only [Result.step, hr]

/-- A step that writes succeeds or stops the run. -/
theorem step_write (directory : Path) (hr : r.failure = none) (d : Document) :
    (∃ t w, r.files.writeText directory d.name d.content = (t, .ok w) ∧
      r.step directory (.write d) = { r with files := t }) ∨
    ∃ t e, r.step directory (.write d) =
      { r with files := t, failure := some (.unwritable e) } := by
  rcases h : r.files.writeText directory d.name d.content with ⟨t, e | w⟩
  · exact .inr ⟨t, e, by simp only [Result.step, hr, h]⟩
  · exact .inl ⟨t, w, rfl, by simp only [Result.step, hr, h]⟩

/-- The documents are written to the directory, one after the other. -/
inductive WritesAll (directory : Path) : List Document → Tree → Tree → Prop
  | nil (t : Tree) : WritesAll directory [] t t
  | cons {d : Document} {ds : List Document} {t t' t'' : Tree} {w : WrittenFile}
      (first : t.writeText directory d.name d.content = (t', .ok w))
      (rest : WritesAll directory ds t' t'') : WritesAll directory (d :: ds) t t''

/-- Steps write all documents that are among them, or the run stops at one that cannot be
written. -/
theorem run_cases (directory : Path) (steps : List Step) (hr : r.failure = none) :
    ((r.run directory steps).failure = none ∧
      WritesAll directory (documents ⟨steps, none⟩) r.files (r.run directory steps).files) ∨
    ∃ e, (r.run directory steps).failure = some (.unwritable e) := by
  induction steps generalizing r with
  | nil => exact .inl ⟨hr, .nil _⟩
  | cons s steps ih =>
    show (((r.step directory s).run directory steps).failure = none ∧
      WritesAll directory _ r.files ((r.step directory s).run directory steps).files) ∨
      ∃ e, ((r.step directory s).run directory steps).failure = some (.unwritable e)
    cases s with
    | say text =>
      rw [step_say hr]
      exact ih hr
    | write d =>
      rcases step_write directory hr d with ⟨t, w, hd, hstep⟩ | ⟨t, e, hstep⟩
      · rw [hstep]
        rcases ih (r := { r with files := t }) hr with ⟨hnone, hrest⟩ | hfails
        · exact .inl ⟨hnone, .cons hd hrest⟩
        · exact .inr hfails
      · rw [hstep, run_of_failure (by simp)]
        exact .inr ⟨e, rfl⟩

/-- A failure other than of a write is the one of the plan, and all its documents are written. -/
theorem writesAll_carryOut {files : Tree} (h : (p.carryOut directory files).failure = some f)
    (hf : ∀ e, f ≠ .unwritable e) :
    p.failure = some f ∧
      WritesAll directory p.documents files (p.carryOut directory files).files := by
  unfold carryOut at h ⊢
  dsimp only at h ⊢
  have hstart : ({ said := "", files } : Result).failure = none := rfl
  rcases run_cases directory p.steps hstart with ⟨hnone, hwrites⟩ | ⟨e, hstopped⟩
  · simp only [hnone] at h ⊢
    exact ⟨h, hwrites⟩
  · simp only [hstopped] at h
    exact absurd (Option.some.inj h).symm (hf e)

/-! ## Documents of plans -/

theorem documents_andThen_of_none (h : p.failure = none) :
    (p.andThen q).documents = p.documents ++ q.documents := by
  simp only [andThen, h, documents, List.filterMap_append]

theorem failure_andThen_of_none (h : p.failure = none) :
    (p.andThen q).failure = q.failure := by
  simp only [andThen, h]

theorem andThen_of_some (h : p.failure = some f) : p.andThen q = p := by
  obtain ⟨steps, failure⟩ := p
  obtain rfl : failure = some f := h
  rfl

end Plan

namespace Generate

variable {c : Config} {ds : Definitions} {m : Metadata} {r : Registry} {f : Failure}

/-- Writing is planned for the one document, unless there is nowhere to write to. -/
theorem writePlan_cases (c : Config) (d : Document) :
    writePlan c d = .single (.write d) ∨ writePlan c d = .fail .noDirectory := by
  unfold writePlan
  split
  · exact .inl rfl
  · exact .inr rfl

/-- The lookup document is planned, or its plan fails before. -/
theorem lookupPlan_cases (c : Config) (ds : Definitions) (r : Registry) :
    (∃ text, Lookup.source r ds = .ok text ∧
      lookupPlan c ds r = .single (.write ⟨lookupFile, text⟩)) ∨
    ∃ f, lookupPlan c ds r = .fail f := by
  unfold lookupPlan
  split
  · exact .inr ⟨_, rfl⟩
  · exact .inr ⟨_, rfl⟩
  · next text hsource =>
    rcases writePlan_cases c ⟨lookupFile, text⟩ with hplan | hplan
    · exact .inl ⟨text, hsource, hplan⟩
    · exact .inr ⟨_, hplan⟩

/-- The errors document is not planned if its plan fails, for want of a directory or because the
errors cannot be collected. -/
theorem errorsPlan_of_failure (h : (errorsPlan c m r).failure = some f) :
    (errorsPlan c m r).documents = [] ∧
      (f = .noDirectory ∨ ∃ e, ErrorModule.collect r m.pallets = .error e ∧ f = .render e) := by
  unfold errorsPlan at h ⊢
  cases hcollect : ErrorModule.collect r m.pallets with
  | error e =>
    simp only [hcollect] at h ⊢
    exact ⟨rfl, .inr ⟨e, rfl, (Option.some.inj h).symm⟩⟩
  | ok modules =>
    simp only [hcollect] at h ⊢
    rcases writePlan_cases c ⟨errorsFile, ErrorModule.source c.strict modules⟩ with hplan | hplan
    · simp only [hplan] at h
      cases h
    · simp only [hplan] at h ⊢
      exact ⟨rfl, .inl (Option.some.inj h).symm⟩

/-- The lookup document is rendered for documents of all kinds, and then the errors cannot be
collected. -/
structure Breaks (c : Config) (ds : Definitions) (m : Metadata) (r : Registry) (text : String)
    (e : RenderError) : Prop where
  kind : c.kind = some .all
  lookup : Lookup.source r ds = .ok text
  errors : ErrorModule.collect r m.pallets = .error e

/-- Both documents are wanted of all kinds only. -/
theorem kind_eq_all {kind : Option DocumentKind}
    (hlookup : kind.any DocumentKind.wantsLookup = true)
    (herrors : kind.any DocumentKind.wantsErrors = true) : kind = some .all := by
  rcases kind with _ | _ | _ | _
  · cases hlookup
  · cases herrors
  · cases hlookup
  · rfl

/-- A plan for documents that fails writes none, if there is a directory for them, unless it breaks
off between two. -/
theorem documentsPlan_of_failure (h : (documentsPlan c ds m r).failure = some f)
    (hf : f ≠ .noDirectory) :
    (documentsPlan c ds m r).documents = [] ∨
      ∃ text e, Breaks c ds m r text e ∧ f = .render e ∧
        (documentsPlan c ds m r).documents = [⟨lookupFile, text⟩] := by
  unfold documentsPlan at h ⊢
  dsimp only at h ⊢
  by_cases herrors : c.kind.any DocumentKind.wantsErrors = true
  · have hcollect (h : (errorsPlan c m r).failure = some f) : (errorsPlan c m r).documents = [] ∧
        ∃ e, ErrorModule.collect r m.pallets = .error e ∧ f = .render e := by
      obtain ⟨hnone, hcause⟩ := errorsPlan_of_failure h
      exact ⟨hnone, hcause.resolve_left hf⟩
    rw [if_pos herrors] at h ⊢
    by_cases hlookup : c.kind.any DocumentKind.wantsLookup = true
    · rw [if_pos hlookup] at h ⊢
      rcases lookupPlan_cases c ds r with ⟨text, hsource, hplan⟩ | ⟨f', hplan⟩
      · rw [hplan, Plan.failure_andThen_of_none rfl] at h
        obtain ⟨hnone, e, he, rfl⟩ := hcollect h
        rw [hplan, Plan.documents_andThen_of_none rfl, hnone]
        exact .inr ⟨text, e, ⟨kind_eq_all hlookup herrors, hsource, he⟩, rfl, rfl⟩
      · rw [hplan, Plan.andThen_of_some rfl]
        exact .inl rfl
    · rw [if_neg hlookup, Plan.failure_andThen_of_none rfl] at h
      rw [if_neg hlookup, Plan.documents_andThen_of_none rfl, (hcollect h).1]
      exact .inl rfl
  · rw [if_neg herrors] at h ⊢
    by_cases hlookup : c.kind.any DocumentKind.wantsLookup = true
    · rw [if_pos hlookup] at h ⊢
      rcases lookupPlan_cases c ds r with ⟨text, hsource, hplan⟩ | ⟨f', hplan⟩
      · rw [hplan] at h
        cases h
      · rw [hplan]
        exact .inl rfl
    · rw [if_neg hlookup] at h
      cases h

theorem registryPlan_cases (m : Metadata) (r : Registry) :
    (∃ line, registryPlan m r = .single (.say line)) ∨ ∃ f, registryPlan m r = .fail f := by
  unfold registryPlan
  split
  · exact .inr ⟨_, rfl⟩
  · exact .inl ⟨_, rfl⟩

/-- What is said before and after the documents writes nothing. -/
theorem metadataPlan_of_failure (h : (metadataPlan c ds m).failure = some f)
    (hf : f ≠ .noDirectory) :
    (metadataPlan c ds m).documents = [] ∨
      ∃ r text e, Registry.ofShapes m.entries (definedNames ds) = .ok r ∧
        Breaks c ds m r text e ∧ f = .render e ∧
        (metadataPlan c ds m).documents = [⟨lookupFile, text⟩] := by
  unfold metadataPlan at h ⊢
  cases hmade : Registry.ofShapes m.entries (definedNames ds) with
  | error e => exact .inl rfl
  | ok r =>
    simp only [hmade] at h ⊢
    rcases registryPlan_cases m r with ⟨line, hregistry⟩ | ⟨f', hregistry⟩
    · rw [hregistry, Plan.failure_andThen_of_none rfl] at h
      rw [hregistry, Plan.documents_andThen_of_none rfl]
      cases hdocuments : (documentsPlan c ds m r).failure with
      | none =>
        rw [Plan.failure_andThen_of_none hdocuments] at h
        cases h
      | some f' =>
        rw [Plan.andThen_of_some hdocuments] at h ⊢
        rcases documentsPlan_of_failure h hf with hnone | ⟨text, e, hbreaks, he, hone⟩
        · rw [hnone]
          exact .inl rfl
        · rw [hone]
          exact .inr ⟨r, text, e, rfl, hbreaks, he, rfl⟩
    · rw [hregistry]
      exact .inl rfl

theorem plan_of_failure {file : Except FileError (List UInt8)}
    (h : (plan c ds file).failure = some f) (hf : f ≠ .noDirectory) :
    (plan c ds file).documents = [] ∨
      ∃ bytes m r text e, file = .ok bytes ∧ metadataOfBytes c.metadata bytes = .ok m ∧
        Registry.ofShapes m.entries (definedNames ds) = .ok r ∧ Breaks c ds m r text e ∧
        f = .render e ∧ (plan c ds file).documents = [⟨lookupFile, text⟩] := by
  cases file with
  | error e => exact .inl rfl
  | ok bytes =>
    unfold plan at h ⊢
    dsimp only at h ⊢
    cases hread : metadataOfBytes c.metadata bytes with
    | error e => exact .inl rfl
    | ok m =>
      simp only [hread] at h ⊢
      rw [Plan.failure_andThen_of_none rfl] at h
      rw [Plan.documents_andThen_of_none rfl]
      rcases metadataPlan_of_failure h hf with hnone | ⟨r, text, e, hmade, hbreaks, he, hone⟩
      · rw [hnone]
        exact .inl rfl
      · rw [hone]
        exact .inr ⟨bytes, m, r, text, e, rfl, hread, hmade, hbreaks, he, rfl⟩

/-! ## Failed generations -/

/-- A generation that fails in a foreseen way leaves the files as they were, or it is one for
documents of all kinds: the lookup document is written, the errors cannot be collected, and nothing
else has changed. Annotations are meant to be of the kinds that they are declared with
(`Head.isTyped`); one of another kind reads as missing, which is no failure. -/
theorem files_eq_or_writes_lookup {files : Tree} (h : (run c ds files).failure = some f)
    (hforeseen : f.isForeseen = true) :
    (run c ds files).files = files ∨
      ∃ bytes m r text e, files.read c.metadata = .ok bytes ∧
        metadataOfBytes c.metadata bytes = .ok m ∧
        Registry.ofShapes m.entries (definedNames ds) = .ok r ∧
        Breaks c ds m r text e ∧ f = .render e ∧
        files.Writes ((directory c).join (.ofString lookupFile)) (Text.Utf8.encode text.toList)
          (run c ds files).files := by
  have hwritable : ∀ e, f ≠ .unwritable e := by
    rintro e rfl
    cases hforeseen
  have hdirectory : f ≠ .noDirectory := by
    rintro rfl
    cases hforeseen
  obtain ⟨hplan, hwrites⟩ := Plan.writesAll_carryOut h hwritable
  change Plan.WritesAll _ _ _ (run c ds files).files at hwrites
  generalize (run c ds files).files = after at hwrites ⊢
  rcases plan_of_failure hplan hdirectory with
    hnone | ⟨bytes, m, r, text, e, hbytes, hread, hmade, hbreaks, he, hone⟩
  · rw [hnone] at hwrites
    cases hwrites
    exact .inl rfl
  · rw [hone] at hwrites
    cases hwrites with
    | cons first rest =>
      cases rest
      exact .inr ⟨bytes, m, r, text, e, hbytes, hread, hmade, hbreaks, he,
        Tree.writes_writeText first⟩

/-- Files with metadata in which a pallet has its errors at an index that no entry has. -/
def unplacedErrors : Tree where
  nodes :=
    let text := "\x7b\"lookup\": [], " ++
      "\"pallets\": [\x7b\"name\": \"Balances\", \"errors\": 2\x7d]\x7d"
    [(⟨.above 0, ["metadata.json"]⟩, .file (Text.Utf8.encode text.toList))]

/-- The lookup document is wanted and there is none, and the run fails and then there is one. -/
theorem run_unplacedErrors :
    (run allKinds [] unplacedErrors).failure.any (fun f => f.isForeseen) = true ∧
      unplacedErrors.at? (Path.join (.ofString "out") (.ofString lookupFile)) = none ∧
      ((run allKinds [] unplacedErrors).files.at?
        (Path.join (.ofString "out") (.ofString lookupFile))).isSome = true ∧
      (run allKinds [] unplacedErrors).files.at?
        (Path.join (.ofString "out") (.ofString errorsFile)) = none := by
  decide +kernel

/-- The lookup document is written, and it is the only change. -/
theorem writes_lookup_unplacedErrors :
    ∃ m r text e, Breaks allKinds [] m r text e ∧
      unplacedErrors.Writes (Path.join (.ofString "out") (.ofString lookupFile))
        (Text.Utf8.encode text.toList) (run allKinds [] unplacedErrors).files := by
  obtain ⟨hfails, hbefore, hafter, -⟩ := run_unplacedErrors
  obtain ⟨f, hf, hforeseen⟩ := (Option.any_eq_true _ _).1 hfails
  rcases files_eq_or_writes_lookup hf hforeseen with
    hsame | ⟨_, m, r, text, e, _, _, _, hbreaks, _, hwrites⟩
  · rw [hsame, hbefore] at hafter
    cases hafter
  · exact ⟨m, r, text, e, hbreaks, hwrites⟩

/-- Of the two documents that are wanted the first is made and the second is not. -/
theorem half_written_unplacedErrors :
    ∃ f, (run allKinds [] unplacedErrors).failure = some f ∧ f.isForeseen = true ∧
      unplacedErrors.at? (Path.join (.ofString "out") (.ofString lookupFile)) = none ∧
      ((run allKinds [] unplacedErrors).files.at?
        (Path.join (.ofString "out") (.ofString lookupFile))).isSome = true ∧
      (run allKinds [] unplacedErrors).files.at?
        (Path.join (.ofString "out") (.ofString errorsFile)) = none := by
  obtain ⟨hfails, hrest⟩ := run_unplacedErrors
  obtain ⟨f, hf, hforeseen⟩ := (Option.any_eq_true _ _).1 hfails
  exact ⟨f, hf, hforeseen, hrest⟩

end Generate

end ChainTypings
