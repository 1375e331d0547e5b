import ChainTypings.Proofs.Shape.Heads
import ChainTypings.Shape.Beneath

/-!
# What stands beneath a shape

The tag of a shape says how many shapes stand beneath it (`Tag.valence`). Descriptions are not held
to that, but type texts are: in the shape of a text every node has as many shapes beneath as its
tag asks for and just the annotations that the construct of its tag gives (`everywhere_parse`).

`Shape.Everywhere` says that a property holds of every node of a shape. What a construct may be is
said once, by `Construct.ReadFrom`; with it the property goes from the operands of a construct to
the construct, and so, by induction on the weight of the text, to whatever is parsed.
-/

namespace ChainTypings

/-! ## Valences -/

/-- How many shapes stand beneath a shape. -/
inductive Valence where
  | none
  | one
  | two
  /-- A list of any length. -/
  | many
  deriving DecidableEq, Repr

/-- How many shapes stand beneath a shape of the tag. -/
def Tag.valence : Tag → Valence
  | option | compact | vec | vecFixed | bTreeSet | linkage | wrapperOpaque | range => .one
  | bTreeMap | hashMap | result => .two
  | struct | tuple | enum | set => .many
  | doNotConstruct | int | null | plain | si | uInt => .none

/-- Whether so many shapes stand beneath the shape; two stand in a list. -/
def Valence.admits : Valence → Shape → Bool
  | none, .leaf _ => true
  | one, .single _ _ => true
  | two, .group _ cs => cs.length = 2
  | many, .group _ _ => true
  | _, _ => false

@[simp] theorem Valence.admits_mapHead (v : Valence) (f : Head → Head) (s : Shape) :
    v.admits (s.mapHead f) = v.admits s := by
  cases v <;> cases s <;> rfl

namespace Shape

/-- As many shapes stand beneath the shape as its tag asks for. -/
def Fits (s : Shape) : Prop := s.head.tag.valence.admits s = true

instance (s : Shape) : Decidable s.Fits := inferInstanceAs (Decidable (_ = true))

/-! ## Every node -/

/-- The shape and every shape beneath it, at any depth, has the property. -/
inductive Everywhere (p : Shape → Prop) : Shape → Prop
  | node {s} : p s → (∀ c ∈ s.children, Everywhere p c) → Everywhere p s

namespace Everywhere

variable {p : Shape → Prop} {s : Shape}

theorem here (h : Everywhere p s) : p s := by
  cases h with
  | node hs _ => exact hs

theorem beneath (h : Everywhere p s) {c : Shape} (hc : c ∈ s.children) : Everywhere p c := by
  cases h with
  | node _ hcs => exact hcs c hc

theorem mono {q : Shape → Prop} (h : Everywhere p s) (hpq : ∀ t, p t → q t) : Everywhere q s := by
  induction h with
  | node hs _ ih => exact .node (hpq _ hs) ih

theorem leaf {h : Head} (hs : p (.leaf h)) : Everywhere p (.leaf h) :=
  .node hs fun _ hc => absurd hc List.not_mem_nil

theorem single {h : Head} {c : Shape} (hs : p (.single h c)) (hc : Everywhere p c) :
    Everywhere p (.single h c) :=
  .node hs fun _ hd => List.mem_singleton.1 hd ▸ hc

theorem group {h : Head} {cs : List Shape} (hs : p (.group h cs))
    (hcs : ∀ c ∈ cs, Everywhere p c) : Everywhere p (.group h cs) :=
  .node hs hcs

/-- A property that does not look at the name of a node is kept when the shape is named. -/
theorem named (h : Everywhere p s) (hp : ∀ (n : Json) (t : Shape), p t → p (t.named n))
    (n : Json) : Everywhere p (s.named n) := by
  refine .node (hp n s h.here) ?_
  intro c hc
  rw [Shape.named, children_mapHead] at hc
  exact h.beneath hc

end Everywhere

/-! ## Parsed shapes -/

/-- The length that a construct of the tag has: a fixed vector and a number have a count, a set has
whatever it is given, and the rest have none. -/
def HasLength (tag : Tag) (length : Json) : Prop :=
  match tag with
  | .vecFixed | .int | .uInt => ∃ n : Nat, length = .int n
  | .set => True
  | _ => length = .null

/-- The index that a construct of the tag has: an indirection has one, and the rest have none. -/
def HasIndex (tag : Tag) (index : Json) : Prop :=
  match tag with
  | .si => ∃ n : Nat, index = .int n
  | _ => index = .null

/-- The node is as a type text makes it: it fits its tag, has the length and the index that go with
its tag, and has neither a declared name nor documentation. -/
structure IsParsed (s : Shape) : Prop where
  fits : s.Fits
  length : HasLength s.head.tag s.head.length
  index : HasIndex s.head.tag s.head.lookupIndex
  undeclared : s.head.lookupName = .null
  undocumented : s.head.docs = []

theorem IsParsed.named {s : Shape} (h : s.IsParsed) (n : Json) : (s.named n).IsParsed := by
  have hhead : (s.named n).head = { s.head with name := n } := head_mapHead _ s
  refine ⟨?_, ?_, ?_, ?_, ?_⟩
  · rw [Fits, hhead, Shape.named, Valence.admits_mapHead]
    exact h.fits
  · rw [hhead]
    exact h.length
  · rw [hhead]
    exact h.index
  · rw [hhead]
    exact h.undeclared
  · rw [hhead]
    exact h.undocumented

end Shape

/-! ## Constructs -/

namespace Construct

open Shape ChainTypings.Bracket

/-- What is read from a text in its normal spelling. The tag of a construct goes with its form, and
its operands and digits are pieces of the text unless it is an inline definition. -/
inductive ReadFrom (value : List Char) : Construct → Prop
  | unit : ReadFrom value .unit
  | plain : ReadFrom value .plain
  | doNotConstruct : ReadFrom value .doNotConstruct
  | indirection (index : Nat) : ReadFrom value (.indirection index)
  | number {tag bits label} : tag = .int ∨ tag = .uInt → Text.allDigits bits = true →
      bits ⊆ value → ReadFrom value (.number tag bits label)
  | tuple {elements} : (∀ e ∈ elements, e ⊆ value) → ReadFrom value (.tuple elements)
  | vec {element} : element ⊆ value → ReadFrom value (.vec element)
  | vecFixed {element digits} : element ⊆ value → Text.allDigits digits = true →
      digits ⊆ value → ReadFrom value (.vecFixed element digits)
  | wrapper {tag argument} : tag.valence = .one → tag ≠ .vecFixed → argument ⊆ value →
      ReadFrom value (.wrapper tag argument)
  | pair {tag first second} : tag.valence = .two → first ⊆ value → second ⊆ value →
      ReadFrom value (.pair tag first second)
  | members {tag ms} : value.head? = some '{' → tag = .enum ∨ tag = .struct →
      ReadFrom value (.members tag ms)
  | variants {names} : value.head? = some '{' → ReadFrom value (.variants names)
  | flags {fs length} : value.head? = some '{' → ReadFrom value (.flags fs length)

/-! ### Pieces of a text -/

theorem subset_of_mem_segments {separator : List Char} {depth : Int} {cs p : List Char}
    (h : p ∈ segments separator depth cs) : p ⊆ cs := by
  induction cs generalizing depth p with
  | nil =>
    obtain rfl := List.mem_singleton.1 h
    exact List.Subset.refl _
  | cons c cs ih =>
    have step : ∀ {d}, p ∈ consHead c (segments separator d cs) → p ⊆ c :: cs := by
      intro d hp
      rcases mem_consHead hp with rfl | hp | ⟨q, hq, rfl⟩
      · exact List.cons_subset_cons c (List.nil_subset cs)
      · exact List.subset_cons_of_subset c (ih hp)
      · exact List.cons_subset_cons c (ih hq)
    unfold segments at h
    split at h
    · exact step h
    split at h
    · exact step h
    split at h
    · rcases List.mem_cons.1 h with rfl | h
      · exact List.nil_subset _
      · exact List.subset_cons_of_subset c (ih h)
    · exact step h

theorem subset_of_mem_splitTopLevel {separator cs p : List Char}
    (h : p ∈ splitTopLevel separator cs) : p ⊆ cs :=
  subset_of_mem_segments (List.mem_filter.1 h).1

theorem subset_of_inside? {opener : Char} {cs inside : List Char}
    (h : inside? opener cs = some inside) : inside ⊆ cs := by
  unfold inside? at h
  split at h
  · split at h
    · split at h
      · next he =>
        obtain rfl := Option.some.inj h
        obtain ⟨k, rfl⟩ := enclosed_eq he
        exact List.subset_cons_of_subset _ (List.subset_append_left _ _)
      · cases h
    · cases h
  · cases h

/-! ### Reading -/

variable {value : List Char} {c : Construct}

theorem readFrom_ofFields {text : String} {fields : List (String × Json)}
    (hv : value.head? = some '{') (h : ofFields text fields = .ok c) : ReadFrom value c := by
  unfold ofFields at h
  split at h
  · obtain rfl := Except.ok.inj h
    exact .variants hv
  · obtain rfl := Except.ok.inj h
    exact .members hv (.inl rfl)
  · cases h
  · split at h
    · split at h
      · obtain rfl := Except.ok.inj h
        exact .flags hv
      · cases h
    · obtain rfl := Except.ok.inj h
      exact .members hv (.inr rfl)

theorem readFrom_ofInline (hv : value.head? = some '{') (h : ofInline value = .ok c) :
    ReadFrom value c := by
  unfold ofInline at h
  dsimp only at h
  split at h
  · cases h
  · exact readFrom_ofFields hv h
  · cases h

theorem readFrom_ofSquare {inside : List Char} (hi : inside ⊆ value)
    (h : ofSquare value inside = .ok c) : ReadFrom value c := by
  unfold ofSquare at h
  split at h
  · next element count hsplit =>
    have hpiece : ∀ p ∈ [element, count], p ⊆ value := by
      intro p hp
      exact List.Subset.trans (subset_of_mem_splitTopLevel (hsplit ▸ hp)) hi
    split at h
    · next hdigits =>
      obtain rfl := Except.ok.inj h
      exact .vecFixed (hpiece _ (by simp)) hdigits (hpiece _ (by simp))
    · cases h
  · obtain rfl := Except.ok.inj h
    exact .vec hi

theorem readFrom_ofArguments {tag : Tag} (ht : tag ∈ generics.map (·.2))
    {arguments : List (List Char)} (ha : ∀ a ∈ arguments, a ⊆ value)
    (h : ofArguments value tag arguments = .ok c) : ReadFrom value c := by
  -- the generic types are numbers, the type that is never built, and wrappers of one or of two
  have hkinds : ∀ t ∈ generics.map (·.2), t = .int ∨ t = .uInt ∨ t = .doNotConstruct ∨
      (arity t = 1 ∧ t.valence = .one ∧ t ≠ .vecFixed) ∨ (arity t = 2 ∧ t.valence = .two) := by
    decide
  have hkind := hkinds tag ht
  unfold ofArguments at h
  dsimp only at h
  split at h
  · split at h
    · next bits rest =>
      split at h
      · next hdigits =>
        obtain rfl := Except.ok.inj h
        exact .number (.inl rfl) hdigits (ha bits List.mem_cons_self)
      · cases h
    · cases h
  · split at h
    · next bits rest =>
      split at h
      · next hdigits =>
        obtain rfl := Except.ok.inj h
        exact .number (.inr rfl) hdigits (ha bits List.mem_cons_self)
      · cases h
    · cases h
  · obtain rfl := Except.ok.inj h
    exact .doNotConstruct
  · next hint huint hnever =>
    have hwrapper := ((hkind.resolve_left hint).resolve_left huint).resolve_left hnever
    split at h
    · next hone =>
      obtain rfl := Except.ok.inj h
      rcases hwrapper with ⟨-, hvalence, hfixed⟩ | ⟨htwo, -⟩
      · exact .wrapper hvalence hfixed (ha _ (by simp))
      · rw [htwo] at hone
        cases hone
    · next htwo =>
      obtain rfl := Except.ok.inj h
      rcases hwrapper with ⟨hone, -⟩ | ⟨-, hvalence⟩
      · rw [hone] at htwo
        cases htwo
      · exact .pair hvalence (ha _ (by simp)) (ha _ (by simp))
    · cases h

theorem mem_of_lookup_generics {name : String} {tag : Tag} (h : generics.lookup name = some tag) :
    tag ∈ generics.map (·.2) := by
  generalize generics = rows at h
  induction rows with
  | nil => cases h
  | cons row rows ih =>
    obtain ⟨key, t⟩ := row
    rw [List.lookup_cons] at h
    split at h
    · obtain rfl := Option.some.inj h
      exact List.mem_cons_self
    · exact List.mem_cons_of_mem _ (ih h)

theorem readFrom_ofName (h : ofName value = .ok c) : ReadFrom value c := by
  unfold ofName at h
  split at h
  · dsimp only at h
    split at h
    · next hl =>
      refine readFrom_ofArguments (mem_of_lookup_generics hl) (fun a ha => ?_) h
      refine List.Subset.trans (subset_of_mem_splitTopLevel ha) ?_
      refine List.Subset.trans (List.dropLast_subset _) ?_
      exact List.Subset.trans (List.drop_subset 1 _) (List.dropWhile_sublist _).subset
    · obtain rfl := Except.ok.inj h
      exact .plain
  · obtain rfl := Except.ok.inj h
    exact .plain

theorem readFrom_read (h : read value = .ok c) : ReadFrom value c := by
  unfold read at h
  split at h
  · cases h
  split at h
  · obtain rfl := Except.ok.inj h
    exact .unit
  split at h
  · next hv => exact readFrom_ofInline hv h
  split at h
  · next hi =>
    obtain rfl := Except.ok.inj h
    refine .tuple fun e he => ?_
    exact List.Subset.trans (subset_of_mem_splitTopLevel he) (subset_of_inside? hi)
  split at h
  · next hi => exact readFrom_ofSquare (subset_of_inside? hi) h
  split at h
  · obtain rfl := Except.ok.inj h
    exact .indirection _
  · exact readFrom_ofName h

/-! ### Assembly -/

theorem count_eq_ok {digits : List Char} {length : Json} (h : count digits = .ok length) :
    ∃ n : Nat, length = .int n := by
  unfold count at h
  split at h
  · next n _ => exact ⟨n, (Except.ok.inj h).symm⟩
  · cases h

/-- A node of a tag and a type only is parsed if it fits the tag and the tag gives it neither a
length nor an index. -/
theorem isParsed_bare {tag : Tag} {type : String} {s : Shape} (hhead : s.head = { tag, type })
    (hfits : tag.valence.admits s = true) (htag : tag ∉ [.vecFixed, .int, .uInt, .si]) :
    IsParsed s := by
  constructor
  · rwa [Fits, hhead]
  · rw [hhead]
    show HasLength tag .null
    unfold HasLength
    split
    · exact absurd (by decide) htag
    · exact absurd (by decide) htag
    · exact absurd (by decide) htag
    · trivial
    · rfl
  · rw [hhead]
    show HasIndex tag .null
    unfold HasIndex
    split
    · exact absurd (by decide) htag
    · rfl
  · rw [hhead]
  · rw [hhead]

/-- The tags of wrappers and of pairs give neither a length nor an index, fixed vectors apart. -/
theorem not_mem_of_valence {tag : Tag} (h : tag.valence = .one ∨ tag.valence = .two)
    (hfixed : tag ≠ .vecFixed) : tag ∉ [.vecFixed, .int, .uInt, .si] := by
  have hall : ∀ t ∈ Tag.all, t.valence = .one ∨ t.valence = .two → t ≠ .vecFixed →
      t ∉ [.vecFixed, .int, .uInt, .si] := by
    decide
  exact hall tag tag.mem_all h hfixed

/-- What has a count in front is made of the number that the count spells. -/
theorem exists_of_count {digits : List Char} {f : Json → Shape} {s : Shape}
    (h : (count digits >>= fun length => Except.ok (f length)) = .ok s) :
    ∃ n : Nat, s = f (.int n) := by
  cases hcount : count digits with
  | error e =>
    rw [hcount] at h
    cases h
  | ok length =>
    rw [hcount] at h
    obtain ⟨n, rfl⟩ := count_eq_ok hcount
    exact ⟨n, (Except.ok.inj h).symm⟩

/-- A construct of parsed operands makes a parsed shape. -/
theorem everywhere_assemble {type : String} {shapes : List Shape} {c : Construct} {s : Shape}
    {value : List Char} (hc : ReadFrom value c) (hlen : shapes.length = c.operands.length)
    (hshapes : ∀ t ∈ shapes, t.Everywhere IsParsed) (h : c.assemble type shapes = .ok s) :
    s.Everywhere IsParsed := by
  have wrapper : ∀ {h : Head} {operand : List Char}, shapes.length = [operand].length →
      (∀ t, IsParsed (.single h t)) → (around h shapes).Everywhere IsParsed := by
    intro h operand hone hp
    obtain ⟨t, rfl⟩ := List.length_eq_one_iff.1 hone
    exact .single (hp t) (hshapes t (List.mem_singleton_self t))
  cases hc with
  | unit | plain | doNotConstruct =>
    obtain rfl := Except.ok.inj h
    exact .leaf (isParsed_bare rfl rfl (by decide))
  | indirection index =>
    obtain rfl := Except.ok.inj h
    exact .leaf ⟨rfl, rfl, ⟨index, rfl⟩, rfl, rfl⟩
  | number ht =>
    obtain ⟨n, rfl⟩ := exists_of_count h
    rcases ht with rfl | rfl <;> exact .leaf ⟨rfl, ⟨n, rfl⟩, rfl, rfl, rfl⟩
  | tuple =>
    obtain rfl := Except.ok.inj h
    exact .group (isParsed_bare rfl rfl (by decide)) hshapes
  | vec =>
    obtain rfl := Except.ok.inj h
    exact wrapper hlen fun _ => isParsed_bare rfl rfl (by decide)
  | vecFixed =>
    obtain ⟨n, rfl⟩ := exists_of_count h
    exact wrapper hlen fun _ => ⟨rfl, ⟨n, rfl⟩, rfl, rfl, rfl⟩
  | wrapper hone hfixed =>
    obtain rfl := Except.ok.inj h
    have htag := not_mem_of_valence (.inl hone) hfixed
    exact wrapper hlen fun _ => isParsed_bare rfl (by rw [hone]; rfl) htag
  | pair htwo =>
    obtain rfl := Except.ok.inj h
    have htag := not_mem_of_valence (.inr htwo) fun hfixed => by rw [hfixed] at htwo; cases htwo
    exact .group (isParsed_bare rfl (by rw [htwo]; exact decide_eq_true hlen) htag) hshapes
  | members _ ht =>
    obtain rfl := Except.ok.inj h
    refine .group ?_ ?_
    · rcases ht with rfl | rfl <;> exact isParsed_bare rfl rfl (by decide)
    · intro t ht
      -- a member is its operand under its name
      obtain ⟨i, hi, rfl⟩ := List.mem_iff_getElem.1 ht
      rw [List.getElem_zipWith]
      exact (hshapes _ (List.getElem_mem _)).named (fun n t h => h.named n) _
  | variants =>
    obtain rfl := Except.ok.inj h
    refine .group (isParsed_bare rfl rfl (by decide)) fun t ht => ?_
    obtain ⟨name, -, rfl⟩ := List.mem_map.1 ht
    exact .leaf ⟨rfl, rfl, rfl, rfl, rfl⟩
  | flags =>
    obtain rfl := Except.ok.inj h
    refine .group ⟨rfl, trivial, rfl, rfl, rfl⟩ fun t ht => ?_
    obtain ⟨flag, -, rfl⟩ := List.mem_map.1 ht
    exact .leaf ⟨rfl, rfl, rfl, rfl, rfl⟩

end Construct

namespace Shape

theorem length_parseEach {parse : List Char → Except ParseError Shape} {ts : List (List Char)}
    {ss : List Shape} (h : parseEach parse ts = .ok ss) : ss.length = ts.length := by
  induction ts generalizing ss with
  | nil =>
    obtain rfl := Except.ok.inj h
    rfl
  | cons t ts ih =>
    unfold parseEach at h
    split at h
    · cases h
    · split at h
      · cases h
      · next hss =>
        obtain rfl := Except.ok.inj h
        rw [List.length_cons, List.length_cons, ih hss]

/-- Every node of the shape of a text is as its tag asks for. -/
theorem everywhere_parse {text : List Char} {s : Shape} (h : parse text = .ok s) :
    s.Everywhere IsParsed := by
  induction hw : Text.weight text using Nat.strongRecOn generalizing text s with
  | ind w ih =>
    obtain ⟨value, c, shapes, hc, hshapes, ha⟩ := parse_eq_ok h
    obtain ⟨-, hread⟩ := Construct.ofText_eq_ok hc
    refine Construct.everywhere_assemble (Construct.readFrom_read hread) (length_parseEach hshapes)
      ?_ ha
    intro t ht
    -- an operand is lighter than the text
    obtain ⟨operand, hmem, hparse⟩ := parseEach_mem hshapes ht
    exact ih _ (hw ▸ Construct.weight_lt_of_ofText hc hmem) hparse rfl

theorem everywhere_parseNamed {name : Json} {text : List Char} {s : Shape}
    (h : parseNamed name text = .ok s) : s.Everywhere IsParsed := by
  unfold parseNamed at h
  cases hp : parse text with
  | error e =>
    rw [hp] at h
    cases h
  | ok t =>
    rw [hp] at h
    obtain rfl := Except.ok.inj h
    exact (everywhere_parse hp).named (fun n t h => h.named n) name

end Shape

end ChainTypings
