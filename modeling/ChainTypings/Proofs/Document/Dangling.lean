import ChainTypings.Command.Generate
import ChainTypings.Proofs.Document.Alike
import ChainTypings.Proofs.Document.Closed
import ChainTypings.Proofs.Document.Entries
import ChainTypings.Proofs.Render.Given

/-!
# References to unknown names

What rendering refers to is put in by the rules or brought in by the heads of shapes. Which names
can be resolved plays no part in it: the lookup document is the same for any known names, and where
a head brings in a name that is not known, the document refers to it although it neither declares
nor imports it (`known_or_lacks`). That does happen (`not_forall_known`).
-/

namespace ChainTypings

namespace Scope

variable {s : Scope} {p : String → Prop} {e : Expr} {follow : Shape → Trail Expr}

/-! ## Where references come from -/

/-- All references of the expression have the property. -/
def AllReferences (p : String → Prop) (e : Expr) : Prop := ∀ n ∈ e.references, p n

theorem AllReferences.name {n : String} (hn : p n) : AllReferences p (.name n) := by
  intro m hm
  obtain rfl := List.mem_singleton.1 hm
  exact hn

theorem AllReferences.of_named (hmarkers : ∀ n ∈ markers, p n) {type : String}
    {typeName : Option String} (htype : p type) (h : (s.named type typeName).outcome = .ok e) :
    AllReferences p e := by
  rcases ok_named h with rfl | ⟨label, _, rfl⟩
  · exact .name htype
  · intro n hn
    rcases List.mem_cons.1 hn with rfl | hn
    · exact hmarkers _ (by decide)
    · obtain rfl := List.mem_singleton.1 hn
      exact htype

/-- The part brings in names with the property and so does what it is rendered as. -/
structure BringsIn (p : String → Prop) (q : Part) : Prop where
  spelt : q.head.Spelt p
  rendered : ∀ hint e, (q.render hint).outcome = .ok e → AllReferences p e

namespace BringsIn

variable {q : Part}

theorem argument (hq : BringsIn p q) {hint : Option String}
    (h : (argument q hint).outcome = .ok e) : AllReferences p e := by
  rcases ok_argument h with ⟨n, hn, rfl⟩ | h
  · exact .name (hq.spelt.declared n hn)
  · exact hq.rendered hint e h

theorem renderMember (hmarkers : ∀ n ∈ markers, p n) (hq : BringsIn p q)
    (h : (s.renderMember q).outcome = .ok e) : AllReferences p e := by
  rcases ok_renderMember h with ⟨n, hn, h⟩ | h
  · exact .of_named hmarkers (hq.spelt.declared n hn) h
  · exact hq.rendered _ e h

end BringsIn

/-- What a rule gives refers to what the rule puts in, and to what the head, the parts and the
entries bring in. -/
theorem allReferences_of_given (hmarkers : ∀ n ∈ markers, p n) {shape : Shape} {parts : Parts}
    (hhead : shape.head.Spelt p) (hparts : ∀ q ∈ parts.toList, BringsIn p q)
    (hf : ∀ h entry, s.target h = .ok entry → ∀ e, (follow entry).outcome = .ok e →
      AllReferences p e)
    (h : Given s follow shape parts e) : AllReferences p e := by
  have members {es : List Expr}
      (hes : (Trail.mapEach s.renderMember parts.toList).outcome = .ok es) :
      ∀ e ∈ es, AllReferences p e := by
    intro e he
    obtain ⟨q, hq, hok⟩ := Trail.exists_of_mem_mapEach hes he
    exact (hparts q hq).renderMember hmarkers hok
  cases h with
  | declared hn => exact .name (hhead.declared _ hn)
  | marker hn => exact .name (hmarkers _ hn)
  | plain htag he => exact .of_named hmarkers (hhead.plain htag) he
  | wrap hw hq ha =>
    intro n hn
    rcases List.mem_cons.1 hn with rfl | hn
    · exact hmarkers _ hw
    · exact (hparts _ hq).argument ha n hn
  | wrapTwo hw hq hq' ha hb =>
    intro n hn
    rcases List.mem_cons.1 hn with rfl | hn
    · exact hmarkers _ hw
    · rcases List.mem_append.1 hn with hn | hn
      · exact (hparts _ hq).argument ha n hn
      · exact (hparts _ hq').argument hb n hn
  | tuple hes =>
    intro n hn
    rcases List.mem_cons.1 hn with rfl | hn
    · exact hmarkers _ (by decide)
    · rw [Expr.referencesEach_eq_flatMap] at hn
      obtain ⟨e, he, hn⟩ := List.mem_flatMap.1 hn
      exact members hes e he n hn
  | struct _ _ hes =>
    intro n hn
    rcases List.mem_cons.1 hn with rfl | hn
    · exact hmarkers _ (by decide)
    · rw [Expr.referencesFields_eq_flatMap] at hn
      obtain ⟨f, hf, hn⟩ := List.mem_flatMap.1 hn
      exact members hes f.2 (List.of_mem_zip hf).2 n hn
  | followed hentry he => exact hf _ _ hentry _ he

theorem allReferences_renderShape (hmarkers : ∀ n ∈ markers, p n)
    (hf : ∀ h entry, s.target h = .ok entry → ∀ e, (follow entry).outcome = .ok e →
      AllReferences p e)
    {shape : Shape} (hs : shape.Spelt p) {hint : Option String}
    (h : (s.renderShape follow shape hint).outcome = .ok e) : AllReferences p e := by
  induction shape using Shape.induction_children generalizing hint e with
  | step shape ih =>
    have hparts : ∀ q ∈ (s.beneath follow shape).toList, BringsIn p q := by
      intro q hq
      obtain ⟨c, hc, rfl⟩ := s.mem_beneath follow hq
      have hchild : c.Spelt p := fun k hk => hs k (Shape.mem_heads_of_mem_children hc hk)
      exact ⟨hchild _ c.head_mem_heads, fun hint e he => ih c hc hchild he⟩
    exact allReferences_of_given hmarkers (hs _ shape.head_mem_heads) hparts hf
      (given_of_renderShape h)

theorem allReferences_renderWithin (hmarkers : ∀ n ∈ markers, p n)
    (hr : ∀ e ∈ s.registry.entries, e.2.Spelt p) (hops : Nat) {shape : Shape} (hs : shape.Spelt p)
    {hint : Option String} (h : (s.renderWithin hops shape hint).outcome = .ok e) :
    AllReferences p e := by
  induction hops generalizing shape hint e with
  | zero =>
    refine allReferences_renderShape hmarkers (fun _ _ _ e he => ?_) hs h
    cases he
  | succ hops ih =>
    refine allReferences_renderShape hmarkers (fun _ entry hentry e he => ?_) hs h
    obtain ⟨k, hk⟩ := exists_mem_of_target hentry
    exact ih (hr _ hk) he

end Scope

namespace Declaration

open Scope

variable {s : Scope} {p : String → Prop} (hmarkers : ∀ n ∈ markers, p n)

include hmarkers

theorem mem_references_fields {qs : List Part} (h : ∀ q ∈ qs, BringsIn p q) {index : Nat}
    {members : List (String × MemberType)} (hok : (fields s index qs).outcome = .ok members) :
    ∀ n ∈ memberReferences members, p n := by
  induction qs generalizing index members with
  | nil =>
    obtain rfl := Except.ok.inj hok
    intro n hn
    exact absurd hn List.not_mem_nil
  | cons q qs ih =>
    obtain ⟨type, htype, hok⟩ := Trail.ok_andThen.1 hok
    obtain ⟨rest, hrest, rfl⟩ := Trail.ok_map.1 hok
    intro n hn
    rcases List.mem_append.1 hn with hn | hn
    · exact (h q List.mem_cons_self).renderMember hmarkers htype n hn
    · exact ih (fun q' hq' => h q' (List.mem_cons_of_mem _ hq')) hrest n hn

theorem mem_references_variantMembers {shape : Shape} {qs : List Part}
    (h : ∀ q ∈ qs, BringsIn p q) {members : List (String × MemberType)}
    (hok : (variantMembers s shape qs).outcome = .ok members) :
    ∀ n ∈ memberReferences members, p n := by
  induction qs generalizing members with
  | nil =>
    obtain rfl := Except.ok.inj hok
    intro n hn
    exact absurd hn List.not_mem_nil
  | cons q qs ih =>
    have hqs {rest : List (String × MemberType)}
        (hrest : (variantMembers s shape qs).outcome = .ok rest) :
        ∀ n ∈ memberReferences rest, p n :=
      ih (fun q' hq' => h q' (List.mem_cons_of_mem _ hq')) hrest
    unfold variantMembers at hok
    split at hok
    · cases hok
    · dsimp only at hok
      split at hok
      · obtain ⟨held, hheld, hok⟩ := Trail.ok_andThen.1 hok
        obtain rfl := Except.ok.inj hheld
        obtain ⟨rest, hrest, rfl⟩ := Trail.ok_map.1 hok
        intro n hn
        exact hqs hrest n hn
      · obtain ⟨type, htype, hok⟩ := Trail.ok_andThen.1 hok
        obtain ⟨held, hheld, hok⟩ := Trail.ok_andThen.1 hok
        obtain rfl := Except.ok.inj hheld
        obtain ⟨rest, hrest, rfl⟩ := Trail.ok_map.1 hok
        intro n hn
        have hn : n ∈ type.references ++ memberReferences rest := hn
        rcases List.mem_append.1 hn with hn | hn
        · exact (h q List.mem_cons_self).renderMember hmarkers htype n hn
        · exact hqs hrest n hn

/-- A declaration refers to what its marker and the rules put in, and to what the entry and those
that indirections lead to bring in. -/
theorem mem_references_ofShape (hr : ∀ e ∈ s.registry.entries, e.2.Spelt p) {shape : Shape}
    (hs : shape.Spelt p) {d : Declaration} (hok : (ofShape s shape).outcome = .ok d) :
    ∀ n ∈ d.references, p n := by
  -- the members of a list are looked at once the list is known to be one
  have list : ∀ f : List Part → Trail Declaration,
      ((parts s shape).andThen f).outcome = .ok d →
        ∃ qs, (∀ q ∈ qs, BringsIn p q) ∧ (f qs).outcome = .ok d := by
    intro f hf
    rcases parts_cases s shape with hp | hp
    · rw [hp] at hf
      cases hf
    · rw [hp, Trail.done_andThen] at hf
      refine ⟨_, fun q hq => ?_, hf⟩
      obtain ⟨c, hc, rfl⟩ := List.mem_map.1 hq
      have hchild : c.Spelt p := fun k hk => hs k (Shape.mem_heads_of_mem_children hc hk)
      exact ⟨hchild _ c.head_mem_heads,
        fun hint e he => allReferences_renderWithin hmarkers hr _ hchild he⟩
  have marked {marker : String} (hmarker : marker ∈ markers)
      {members : List (String × MemberType)} (hmembers : ∀ n ∈ memberReferences members, p n) :
      ∀ n ∈ marker :: memberReferences members, p n :=
    List.forall_mem_cons.2 ⟨hmarkers _ hmarker, hmembers⟩
  unfold ofShape at hok
  dsimp only at hok
  split at hok
  · obtain ⟨_, _, hok⟩ := Trail.ok_andThen.1 hok
    obtain ⟨qs, hqs, hok⟩ := list _ hok
    obtain ⟨members, hmembers, rfl⟩ := Trail.ok_map.1 hok
    exact marked (by decide) (mem_references_fields hmarkers hqs hmembers)
  · obtain ⟨_, _, hok⟩ := Trail.ok_andThen.1 hok
    obtain ⟨qs, hqs, hok⟩ := list _ hok
    obtain ⟨members, hmembers, rfl⟩ := Trail.ok_map.1 hok
    refine marked (by decide) ?_
    -- the union of the variants refers to no type
    simpa [memberReferences, MemberType.references] using
      mem_references_variantMembers hmarkers hqs hmembers
  · obtain ⟨base, hbase, rfl⟩ := Trail.ok_map.1 hok
    have hall := allReferences_renderWithin hmarkers hr _ hs.anonymous hbase
    simpa [references, memberReferences, AllReferences] using hall

end Declaration

/-! ## Names of entries -/

namespace Registry

/-- A head in an entry brings the name in: it is the declared name, or a plain type. -/
def BringsIn (r : Registry) (n : String) : Prop :=
  ∃ e ∈ r.entries, ∃ h ∈ e.2.heads, h.alias? = some n ∨ h.tag = .plain ∧ h.type = n

end Registry

namespace Lookup

open Generate (definedNames)

variable {ds : Definitions} {r : Registry} {n : String}

/-- A document refers to what rules put in and to what heads bring in. -/
theorem marker_or_bringsIn {d : Document} (h : document r ds = .ok d) (hn : n ∈ d.references) :
    n ∈ Scope.markers ∨ r.BringsIn n := by
  have hspelt : ∀ e ∈ r.entries, e.2.Spelt fun n => n ∈ Scope.markers ∨ r.BringsIn n := by
    intro e he k hk
    exact ⟨fun n hn => .inr ⟨e, he, k, hk, .inl hn⟩, fun ht => .inr ⟨e, he, k, hk, .inr ⟨ht, rfl⟩⟩⟩
  obtain ⟨entries, hentries, hok, _⟩ := exists_of_document h
  obtain ⟨x, hx, hn⟩ := List.mem_flatMap.1 hn
  obtain ⟨shape, hshape, hx⟩ := Trail.exists_of_mem_mapEach hok hx
  obtain ⟨⟨e, he, rfl⟩, _⟩ := (mem_namedEntries hentries).1 hshape
  exact Declaration.mem_references_ofShape (fun _ hm => .inl hm) hspelt (hspelt e he) hx n hn

/-- The document neither declares nor imports the name. -/
structure Document.Lacks (d : Document) (n : String) : Prop where
  undeclared : n ∉ d.declared
  unimported : d.importCount n = 0

/-- A name that is neither of the library nor listed by a definition file goes to no bucket. -/
theorem bucketOf?_eq_none (hlibrary : n ∉ Category.builtins) (hdefined : n ∉ definedNames ds) :
    Ledger.bucketOf? ds n = none := by
  have hcategory : Category.of? n = none := by
    rw [Category.of?, List.find?_eq_none]
    intro c hc hmem
    exact hlibrary (List.mem_flatMap.2 ⟨c, hc, of_decide_eq_true hmem⟩)
  have hfile : ds.find? (fun d => d.2.contains n) = none := by
    rw [List.find?_eq_none]
    intro d hd hmem
    exact hdefined (List.mem_flatMap.2 ⟨d, hd, List.contains_iff_mem.1 hmem⟩)
  rw [Ledger.bucketOf?, hcategory]
  show Ledger.fileOf? ds n = none
  rw [Ledger.fileOf?, hfile]
  rfl

/-- What is not known a document neither declares nor imports. -/
theorem lacks_of_not_isKnown {shapes : List Shape}
    (hmade : Registry.ofShapes shapes (definedNames ds) = .ok r) {d : Document}
    (h : document r ds = .ok d) (hn : ¬ r.isKnown n = true) : d.Lacks n := by
  rw [Registry.isKnown_ofShapes hmade, not_or, not_or] at hn
  obtain ⟨⟨hlibrary, hdefined⟩, hentries'⟩ := hn
  obtain ⟨entries, hentries, hok, hgroups⟩ := exists_of_document h
  constructor
  · intro hdeclared
    rw [Document.declared,
      declared_eq (fun s hs => ((mem_namedEntries hentries).1 hs).2) hok] at hdeclared
    obtain ⟨shape, hshape, halias⟩ := List.mem_filterMap.1 hdeclared
    obtain ⟨⟨e, he, rfl⟩, _⟩ := (mem_namedEntries hentries).1 hshape
    exact hentries' ⟨e, he, halias⟩
  · rw [Document.importCount, hgroups, List.countP_eq_zero]
    intro g hg hlisted
    obtain ⟨b, hb⟩ := ImportDef.exists_bucket_of_mem_groups hg (of_decide_eq_true hlisted)
    have hbucket := ((mem_names_iff b).1 hb).2
    rw [bucketOf?_eq_none hlibrary hdefined] at hbucket
    cases hbucket

/-- The known names play no part in making the document, so none is refused for a name that is not
known: if it refers to one, a head brings it in, and it is neither declared nor imported. Names are
meant to be texts; one of another kind reads as missing, and no reference comes of it
(`Json.label?`). -/
theorem known_or_lacks {shapes : List Shape}
    (hmade : Registry.ofShapes shapes (definedNames ds) = .ok r) :
    (∀ known, source { r with known } ds = source r ds) ∧
      ∀ text, source r ds = .ok text → ∃ d, document r ds = .ok d ∧ text = d.print ∧
        ∀ n ∈ d.references, r.isKnown n = true ∨ r.BringsIn n ∧ d.Lacks n := by
  refine ⟨fun known => ?_, fun text htext => ?_⟩
  · have halike : Registry.Alike { r with known } r := ⟨fun _ => rfl, rfl⟩
    exact source_congr halike rfl ds
  obtain ⟨d, hdocument, hprint⟩ := exists_of_source htext
  refine ⟨d, hdocument, hprint, fun n hn => ?_⟩
  by_cases hknown : r.isKnown n = true
  · exact .inl hknown
  · refine .inr ⟨?_, lacks_of_not_isKnown hmade hdocument hknown⟩
    refine (marker_or_bringsIn hdocument hn).resolve_left fun hmarker => hknown ?_
    have hlibrary : ∀ n ∈ Scope.markers, n ∈ Category.builtins := by decide +kernel
    exact (Registry.isKnown_ofShapes hmade).2 (.inl (.inl (hlibrary n hmarker)))

/-- A structure with a field of a plain type that nothing declares. -/
def wallet : Shape :=
  .group { tag := .struct, type := "Wallet", lookupName := .str "Wallet", lookupIndex := .int 0 }
    [.leaf { tag := .plain, type := "Coin", name := .str "coin" }]

/-- The registry of the structure. -/
def walletRegistry : Registry where
  entries := [(.number 0 0, wallet)]
  known := Category.builtins ++ ["Wallet"]

/-- The document is made, and what the type of the field is, it does not say. -/
theorem lacks_wallet :
    Registry.ofShapes [wallet] (definedNames []) = .ok walletRegistry ∧
      ∃ d, document walletRegistry [] = .ok d ∧ "Coin" ∈ d.references ∧ d.Lacks "Coin" := by
  have hmade : Registry.ofShapes [wallet] (definedNames []) = .ok walletRegistry := rfl
  have hrefers : (document walletRegistry []).toOption.any ("Coin" ∈ ·.references) = true := by
    decide +kernel
  have hsource : (source walletRegistry []).toOption.isSome = true := by decide +kernel
  obtain ⟨text, htext⟩ := exists_ok_of_isSome hsource
  obtain ⟨d, hd, _, hall⟩ := (known_or_lacks hmade).2 text htext
  rw [hd] at hrefers
  have hmem : "Coin" ∈ d.references := of_decide_eq_true hrefers
  rcases hall "Coin" hmem with hknown | ⟨_, hlacks⟩
  · exact absurd hknown (by decide +kernel)
  · exact ⟨hmade, d, hd, hmem, hlacks⟩

/-- Not every document is refused that refers to a name which is not known. -/
theorem not_forall_known :
    ¬ ∀ (shapes : List Shape) (ds : Definitions) (r : Registry) (d : Document),
      Registry.ofShapes shapes (definedNames ds) = .ok r → document r ds = .ok d →
        ∀ n ∈ d.references, r.isKnown n = true := by
  intro hall
  have hunknown : (document walletRegistry []).toOption.any
      (fun d => "Coin" ∈ d.references ∧ walletRegistry.isKnown "Coin" = false) = true := by
    decide +kernel
  cases hd : document walletRegistry [] with
  | error e =>
    rw [hd] at hunknown
    cases hunknown
  | ok d =>
    rw [hd] at hunknown
    obtain ⟨hmem, hnot⟩ := of_decide_eq_true hunknown
    cases hnot.symm.trans (hall [wallet] [] walletRegistry d rfl hd "Coin" hmem)

end Lookup

end ChainTypings
