import ChainTypings.Proofs.Import.Mentioned
import ChainTypings.Proofs.Render.Parts

/-!
# Whatever is referred to has been met

The names that a rendered expression refers to come from three sources: the words of the library
that the rules put in, the names under which types are declared, and plain types. If all of them
belong to one vocabulary of words, each has been mentioned by the time the expression is given, or
is declared by the document itself. The invariant is `Refers`; it is carried from the parts of a
shape to the shape by the rules, and through indirections by the count of those left.
-/

namespace ChainTypings

open Text Import

namespace Expr

mutual

/-- The names of types that an expression refers to. -/
def references : Expr → List String
  | name text => [text]
  | labelled _ type => ["As", type]
  | wrap wrapper argument => wrapper :: references argument
  | wrapTwo wrapper first second => wrapper :: (references first ++ references second)
  | tuple elements => "ITuple" :: referencesEach elements
  | struct fields => "Struct" :: referencesFields fields

/-- The names of types that several expressions refer to. -/
def referencesEach : List Expr → List String
  | [] => []
  | e :: es => references e ++ referencesEach es

/-- The names of types that the fields of a structure refer to. -/
def referencesFields : List (String × Expr) → List String
  | [] => []
  | (_, e) :: fields => references e ++ referencesFields fields

end

theorem referencesEach_eq_flatMap (es : List Expr) : referencesEach es = es.flatMap references := by
  induction es with
  | nil => rfl
  | cons e es ih => rw [referencesEach, ih, List.flatMap_cons]

theorem referencesFields_eq_flatMap (fields : List (String × Expr)) :
    referencesFields fields = fields.flatMap fun f => f.2.references := by
  induction fields with
  | nil => rfl
  | cons f fields ih => rw [referencesFields, ih, List.flatMap_cons]

end Expr

/-- The names of the library that rules and declarations put in. -/
def Scope.markers : List String :=
  ["As", "BTreeMap", "BTreeSet", "Compact", "DoNotConstruct", "Enum", "HashMap", "ITuple",
   "Linkage", "Null", "Option", "Result", "Struct", "U8aFixed", "Vec", "WrapperOpaque"]

/-- A vocabulary of words that holds what the rules put in. -/
structure Vocabulary (p : String → Prop) : Prop where
  ne_nil : ∀ n, p n → n.toList ≠ []
  word : ∀ n, p n → IsWord n
  marker : ∀ n ∈ Scope.markers, p n

theorem Vocabulary.has {p : String → Prop} (v : Vocabulary p) {n : String}
    (hn : n ∈ Scope.markers := by decide) : p n :=
  v.marker n hn

/-- The names that a head may bring in belong to the vocabulary: the one under which the type is
declared, and the type itself if it is plain. -/
structure Head.Spelt (p : String → Prop) (h : Head) : Prop where
  declared : ∀ n, h.alias? = some n → p n
  plain : h.tag = .plain → p h.type

/-- All heads of the shape are spelt in the vocabulary. -/
def Shape.Spelt (p : String → Prop) (shape : Shape) : Prop := ∀ h ∈ shape.heads, h.Spelt p

namespace Scope

variable (s : Scope) (p : String → Prop)

/-- The document declares the name, or the name is known. -/
def Met (known : String → Prop) (n : String) : Prop := n ∈ s.ignored ∨ known n

/-- The names belong to the vocabulary and have been met. -/
def Refers (known : String → Prop) (names : List String) : Prop :=
  ∀ n ∈ names, p n ∧ s.Met known n

variable {s p} {α : Type} {known known' : String → Prop} {n : String} {names : List String}

theorem Met.mono (hk : ∀ m, known m → known' m) (h : s.Met known n) : s.Met known' n :=
  h.imp_right (hk n)

theorem Refers.mono (hk : ∀ m, known m → known' m) (h : s.Refers p known names) :
    s.Refers p known' names := by
  intro m hm
  exact (h m hm).imp_right (Met.mono hk)

theorem Refers.nil : s.Refers p known [] := by
  intro m hm
  exact absurd hm List.not_mem_nil

theorem Refers.cons (hn : p n) (hmet : s.Met known n) (h : s.Refers p known names) :
    s.Refers p known (n :: names) := by
  intro m hm
  rcases List.mem_cons.1 hm with rfl | hm
  · exact ⟨hn, hmet⟩
  · exact h m hm

theorem Refers.append {ms : List String} (h : s.Refers p known names)
    (h' : s.Refers p known ms) : s.Refers p known (names ++ ms) := by
  intro m hm
  rcases List.mem_append.1 hm with hm | hm
  · exact h m hm
  · exact h' m hm

/-- An expression that is given refers to names of the vocabulary that have been met by then. -/
abbrev Resolves (s : Scope) (p : String → Prop) (known : String → Prop) (t : Trail Expr) : Prop :=
  t.Gives known fun e k => s.Refers p k e.references

theorem refers_name (hn : p n) (hmet : s.Met known n) :
    s.Refers p known (Expr.name n).references :=
  Refers.nil.cons hn hmet

/-! ## Mentioning -/

variable (v : Vocabulary p)

include v

theorem gives_mention (known : String → Prop) (hn : p n) :
    (s.mention n).Gives known fun _ k => s.Met k n := by
  intro _ _
  by_cases hi : n ∈ s.ignored
  · exact .inl hi
  · refine .inr (.inr ?_)
    rw [mention, mentionsOf_word s.ignored (v.ne_nil n hn) (v.word n hn)]
    exact Trail.mem_noting.2 ⟨List.mem_singleton_self n, hi⟩

theorem gives_mentionAliases (known : String → Prop) {ps : List Part}
    (hps : ∀ q ∈ ps, q.head.Spelt p) :
    (s.mentionAliases ps).Gives known fun _ k =>
      ∀ q ∈ ps, ∀ n, q.head.alias? = some n → s.Met k n := by
  intro _ _ q hq n hn
  by_cases hi : n ∈ s.ignored
  · exact .inl hi
  · have hwords : ∀ n ∈ ps.filterMap fun q => q.head.alias?, n.toList ≠ [] ∧ IsWord n := by
      intro m hm
      obtain ⟨q', hq', hm⟩ := List.mem_filterMap.1 hm
      have hp := (hps q' hq').declared m hm
      exact ⟨v.ne_nil m hp, v.word m hp⟩
    refine .inr (.inr ?_)
    rw [mentionAliases, mentionsAll_words s.ignored hwords]
    exact Trail.mem_noting.2 ⟨List.mem_filterMap.2 ⟨q, hq, hn⟩, hi⟩

theorem gives_named {type : String} (htype : p type) (hmet : s.Met known type)
    (typeName : Option String) :
    s.Resolves p known (s.named type typeName) := by
  unfold named
  split
  · have has : p "As" := v.has
    refine (gives_mention v known has).map ?_
    intro _ k hk hmetAs
    exact .cons has hmetAs (refers_name htype (hmet.mono hk))
  · exact .done (refers_name htype hmet)

omit v

/-! ## Parts -/

/-- A part whose rendering refers to names of the vocabulary that have been met. -/
structure Sound (s : Scope) (p : String → Prop) (q : Part) : Prop where
  spelt : q.head.Spelt p
  gives : ∀ hint known, s.Resolves p known (q.render hint)

theorem Sound.argument {q : Part} (hq : s.Sound p q)
    (hmet : ∀ n, q.head.alias? = some n → s.Met known n) (hint : Option String) :
    s.Resolves p known (argument q hint) := by
  unfold Scope.argument
  split
  · next n hn => exact .done (refers_name (hq.spelt.declared n hn) (hmet n hn))
  · exact hq.gives hint known

theorem gives_listed (shape : Shape) {parts : Parts}
    {f : List Part → Trail α} {post : α → (String → Prop) → Prop}
    (h : (f parts.toList).Gives known post) :
    ((listed shape parts).andThen f).Gives known post := by
  rcases listed_cases shape parts with hl | hl
  · rw [hl]
    exact .fail _
  · rw [hl, Trail.done_andThen]
    exact h

include v

theorem Sound.renderMember {q : Part} (hq : s.Sound p q) (known : String → Prop) :
    s.Resolves p known (s.renderMember q) := by
  unfold Scope.renderMember
  split
  · next n hn =>
    have hp := hq.spelt.declared n hn
    exact (gives_mention v known hp).andThen fun _ k _ hmet => gives_named v hp hmet _
  · exact hq.gives _ known

theorem gives_wrap {parts : Parts} (h : ∀ q ∈ parts.toList, s.Sound p q) (shape : Shape)
    {wrapper : String} (hw : p wrapper) (hint : Option String) :
    s.Resolves p known (s.wrap shape parts wrapper hint) := by
  cases parts with
  | none => exact .fail _
  | many qs => exact .fail _
  | one q =>
    have hq := h q (List.mem_singleton_self q)
    refine (gives_mention v known hw).andThen ?_
    intro _ k₁ _ hmet
    refine (gives_mentionAliases v k₁ fun q' hq' => (h q' hq').spelt).andThen ?_
    intro _ k₂ hk₂ haliases
    refine (hq.argument (haliases q (List.mem_singleton_self q)) hint).map ?_
    intro e k₃ hk₃ he
    exact .cons hw ((hmet.mono hk₂).mono hk₃) he

theorem gives_wrapTwo {parts : Parts} (h : ∀ q ∈ parts.toList, s.Sound p q) (shape : Shape)
    {wrapper : String} (hw : p wrapper) :
    s.Resolves p known (s.wrapTwo shape parts wrapper) := by
  refine gives_listed shape ?_
  generalize parts.toList = qs at h
  split
  · next a b =>
    have ha : a ∈ [a, b] := List.mem_cons_self
    have hb : b ∈ [a, b] := List.mem_cons_of_mem _ (List.mem_singleton_self b)
    refine (gives_mention v known hw).andThen ?_
    intro _ k₁ _ hmet
    refine (gives_mentionAliases v k₁ fun q hq => (h q hq).spelt).andThen ?_
    intro _ k₂ hk₂ haliases
    refine ((h a ha).argument (haliases a ha) none).andThen ?_
    intro x k₃ hk₃ hx
    -- the second argument is rendered after the first has met further names
    have haliasesb := fun n hn => (haliases b hb n hn).mono hk₃
    refine ((h b hb).argument haliasesb none).map ?_
    intro y k₄ hk₄ hy
    exact .cons hw (((hmet.mono hk₂).mono hk₃).mono hk₄) ((hx.mono hk₄).append hy)
  · exact .fail _

theorem gives_renderFields {qs : List Part} (h : ∀ q ∈ qs, s.Sound p q)
    (known : String → Prop) (index : Nat) :
    (s.renderFields index qs).Gives known fun fields k =>
      s.Refers p k (Expr.referencesFields fields) := by
  induction qs generalizing known index with
  | nil => exact .done .nil
  | cons q qs ih =>
    refine ((h q (by simp)).renderMember v known).andThen ?_
    intro e k₁ hk₁ he
    have hqs := ih (fun q' hq' => h q' (List.mem_cons_of_mem _ hq')) k₁ (index + 1)
    exact hqs.map fun fields k₂ hk₂ hfields => (he.mono hk₂).append hfields

theorem gives_renderMembers {qs : List Part} (h : ∀ q ∈ qs, s.Sound p q)
    (known : String → Prop) :
    (Trail.mapEach s.renderMember qs).Gives known fun es k =>
      s.Refers p k (Expr.referencesEach es) := by
  have heach : (Trail.mapEach s.renderMember qs).Gives known fun es k =>
      ∀ e ∈ es, s.Refers p k e.references :=
    .mapEach (fun _ _ _ hk he => he.mono hk) fun q hq k _ => (h q hq).renderMember v k
  intro es hes n hn
  rw [Expr.referencesEach_eq_flatMap] at hn
  obtain ⟨e, he, hn⟩ := List.mem_flatMap.1 hn
  exact heach es hes e he n hn

/-! ## Shapes -/

variable {follow : Shape → Trail Expr}

/-- The rules keep the invariant: what they put in is of the library and is mentioned first. -/
theorem gives_rule
    (hf : ∀ h entry, s.target h = .ok entry → ∀ known, s.Resolves p known (follow entry))
    {shape : Shape} (hs : shape.head.Spelt p) {parts : Parts}
    (h : ∀ q ∈ parts.toList, s.Sound p q) (hint : Option String) (known : String → Prop)
    (hmet : ∀ n, shape.head.alias? = some n → s.Met known n) :
    s.Resolves p known (s.rule follow shape parts hint) := by
  have wrap : ∀ wrapper hint, p wrapper → s.Resolves p known (s.wrap shape parts wrapper hint) :=
    fun wrapper hint hw => gives_wrap v h shape hw hint
  have name : ∀ n, p n →
      s.Resolves p known ((s.mention n).andThen fun _ => .done (Expr.name n)) := by
    intro n hn
    refine (gives_mention v known hn).map ?_
    intro _ _ _ hmet
    exact refers_name hn hmet
  -- a declared name has been met before the rule is applied
  have aliasOr : ∀ t, s.Resolves p known t → s.Resolves p known (aliasOr shape.head t) := by
    intro t ht
    unfold Scope.aliasOr
    split
    · next n hn => exact .done (refers_name (hs.declared n hn) (hmet n hn))
    · exact ht
  unfold rule
  dsimp only
  cases htag : shape.head.tag with
  | compact => exact wrap _ _ v.has
  | option => exact wrap _ _ v.has
  | vec => exact wrap _ _ v.has
  | bTreeSet => exact wrap _ _ v.has
  | linkage => exact wrap _ _ v.has
  | wrapperOpaque => exact wrap _ _ v.has
  | vecFixed =>
    dsimp only
    split
    · split
      · exact name _ v.has
      · exact wrap _ _ v.has
    · exact .fail _
  | bTreeMap => exact gives_wrapTwo v h shape v.has
  | hashMap => exact gives_wrapTwo v h shape v.has
  | result => exact gives_wrapTwo v h shape v.has
  | doNotConstruct => exact name _ v.has
  | null => exact name _ v.has
  | enum => exact aliasOr _ (.fail _)
  | plain =>
    have htype := hs.plain htag
    refine aliasOr _ ((gives_mention v known htype).andThen ?_)
    intro _ k _ hmet
    exact gives_named v htype hmet hint
  | struct =>
    have hstruct : p "Struct" := v.has
    refine aliasOr _ (gives_listed shape ?_)
    refine (gives_mention v known hstruct).andThen ?_
    intro _ k₁ _ hmet
    refine (gives_mentionAliases v k₁ fun q hq => (h q hq).spelt).andThen ?_
    intro _ k₂ hk₂ _
    refine (gives_renderFields v h k₂ 0).map ?_
    intro fields k₃ hk₃ hfields
    exact .cons hstruct ((hmet.mono hk₂).mono hk₃) hfields
  | tuple =>
    have htuple : p "ITuple" := v.has
    refine aliasOr _ (gives_listed shape ?_)
    refine (gives_mention v known htuple).andThen ?_
    intro _ k₁ _ hmet
    refine (gives_mentionAliases v k₁ fun q hq => (h q hq).spelt).andThen ?_
    intro _ k₂ hk₂ _
    refine (gives_renderMembers v h k₂).map ?_
    intro es k₃ hk₃ hes
    exact .cons htuple ((hmet.mono hk₂).mono hk₃) hes
  | si =>
    dsimp only
    split
    · next entry htarget => exact hf _ entry htarget known
    · exact .fail _
  | int => exact .fail _
  | uInt => exact .fail _
  | range => exact .fail _
  | set => exact .fail _

theorem gives_renderShape
    (hf : ∀ h entry, s.target h = .ok entry → ∀ known, s.Resolves p known (follow entry))
    {shape : Shape} (hs : shape.Spelt p) (hint : Option String) (known : String → Prop) :
    s.Resolves p known (s.renderShape follow shape hint) := by
  induction shape using Shape.induction_children generalizing hint known with
  | step shape ih =>
    have hhead : shape.head.Spelt p := hs _ shape.head_mem_heads
    have hparts : ∀ q ∈ (s.beneath follow shape).toList, s.Sound p q := by
      intro q hq
      obtain ⟨c, hc, rfl⟩ := s.mem_beneath follow hq
      have hspelt : c.Spelt p := fun h hh => hs h (Shape.mem_heads_of_mem_children hc hh)
      exact ⟨hspelt _ c.head_mem_heads, ih c hc hspelt⟩
    -- the reference is mentioned first, and it is the declared name if there is one
    have hreference : (s.mention shape.head.reference).Gives known fun _ k =>
        ∀ n, shape.head.alias? = some n → s.Met k n := by
      intro _ hok n hn
      have hn' : shape.head.reference = n := by rw [Head.reference, hn, Option.getD_some]
      rw [hn'] at hok ⊢
      exact gives_mention v known (hhead.declared n hn) () hok
    rw [renderShape_eq]
    exact hreference.andThen fun _ k _ hmet => gives_rule v hf hhead hparts hint k hmet

/-- What is rendered by following at most so many indirections refers to nothing new. -/
theorem gives_renderWithin (hr : ∀ e ∈ s.registry.entries, e.2.Spelt p) (hops : Nat)
    {shape : Shape} (hs : shape.Spelt p) (hint : Option String) (known : String → Prop) :
    s.Resolves p known (s.renderWithin hops shape hint) := by
  induction hops generalizing shape hint known with
  | zero => exact gives_renderShape v (fun _ _ _ _ => .fail _) hs hint known
  | succ hops ih =>
    refine gives_renderShape v (fun h entry ht k => ?_) hs hint known
    obtain ⟨key, hentry⟩ := exists_mem_of_target ht
    exact ih (hr _ hentry) none k

theorem gives_render (hr : ∀ e ∈ s.registry.entries, e.2.Spelt p) {shape : Shape}
    (hs : shape.Spelt p) (hint : Option String) (known : String → Prop) :
    s.Resolves p known (s.render shape hint) :=
  gives_renderWithin v hr _ hs hint known

end Scope

end ChainTypings
