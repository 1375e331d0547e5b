import ChainTypings.Proofs.Render.Acyclic

/-!
# Rendering step by step

One step of rendering mentions how a shape is referred to and applies the rule of its tag; the
shapes beneath and the entry that is followed are rendered by the same steps. The rule does not ask
for all of them: for none if the shape is rendered as its name, if its tag makes no use of what is
beneath or if it is a fixed vector of bytes, and never for a part that is referred to by a declared
name. `Registry.calls` lists those that it asks for, and `rule_congr` says that it asks for no
others.

The bound on the indirections that are followed takes no part in this. Without cycles rendering is
what its equation says, with no bound (`render_eq_renderBy`), and the shapes on which it calls
itself, one beneath the other, make a finite tree (`Registry.exists_visits`).
-/

namespace ChainTypings

/-! ## The shapes that are rendered -/

/-- Whether the rule of its tag renders what stands beneath the shape. -/
def Shape.isOpened (s : Shape) : Bool :=
  match s.head.tag with
  | .vecFixed => s.children.all fun c => c.head.type ≠ "u8"
  | .struct | .tuple => s.head.alias?.isNone
  | t => t.isWrapper

theorem Shape.isNamed_eq_false_of_isOpened {s : Shape} (h : s.isOpened = true) :
    s.isNamed = false := by
  have hwrappers : ∀ t ∈ Tag.all, t.isWrapper = true → t.isReferred = false := by decide
  unfold isOpened at h
  split at h
  · next htag => rw [isNamed, htag]; rfl
  · rw [isNamed, ← Option.not_isNone, h, Bool.not_true, Bool.and_false]
  · rw [isNamed, ← Option.not_isNone, h, Bool.not_true, Bool.and_false]
  · rw [isNamed, hwrappers _ s.head.tag.mem_all h, Bool.false_and]

/-- The shapes on which rendering a shape calls itself: those directly beneath that have no declared
name, if its rule renders them, and the entry that it leads to. -/
def Registry.calls (r : Registry) (shape : Shape) : List Shape :=
  (if shape.isOpened then shape.children.filter fun c => c.head.alias?.isNone else []) ++
    if shape.head.tag = .si then (Scope.target ⟨r, []⟩ shape.head).toOption.toList else []

theorem Registry.mem_calls {r : Registry} {shape callee : Shape} : callee ∈ r.calls shape ↔
    (shape.isOpened = true ∧ callee ∈ shape.children ∧ callee.head.alias? = none) ∨
      (shape.head.tag = .si ∧ Scope.target ⟨r, []⟩ shape.head = .ok callee) := by
  rw [calls, List.mem_append]
  refine or_congr ?_ ?_
  · by_cases hopened : shape.isOpened = true
    · simp [hopened]
    · simp [hopened]
  · by_cases hsi : shape.head.tag = .si
    · cases Scope.target ⟨r, []⟩ shape.head with
      | error e => simp [hsi, Except.toOption]
      | ok entry => simp [hsi, Except.toOption, eq_comm]
    · simp [hsi]

/-- Where a shape leads, there leads whatever it is rendered through. -/
theorem Registry.leads_of_mem_calls {r : Registry} {shape callee : Shape}
    (h : callee ∈ r.calls shape) :
    r.Leads shape callee ∨ callee ∈ shape.children ∧
      ∀ entry, r.Leads callee entry → r.Leads shape entry := by
  rcases mem_calls.1 h with ⟨hopened, hc, hn⟩ | ⟨hsi, htarget⟩
  · refine .inr ⟨hc, ?_⟩
    rintro entry ⟨t, ht, htag, htarget⟩
    exact ⟨t, .beneath (Shape.isNamed_eq_false_of_isOpened hopened) hc hn ht, htag, htarget⟩
  · exact .inl ⟨shape, .refl shape, hsi, htarget⟩

namespace Scope

/-- One step of rendering: the shapes beneath and the entry that is followed are rendered as
told. -/
def renderBy (s : Scope) (render : Shape → Option String → Trail Expr) (shape : Shape)
    (hint : Option String) : Trail Expr :=
  (s.mention shape.head.reference).andThen fun _ =>
    s.rule (fun entry => render entry none) shape (partsBy render shape) hint

/-! ## What a rule asks for -/

/-- The same part, rendered alike unless it is referred to by a declared name. -/
structure Agree (p q : Part) : Prop where
  head : p.head = q.head
  render : p.head.alias? = none → p.render = q.render

/-- The same parts, rendered alike unless they are referred to by a declared name. -/
inductive AgreeParts : Parts → Parts → Prop
  | none : AgreeParts .none .none
  | one {p q : Part} : Agree p q → AgreeParts (.one p) (.one q)
  | many {ps qs : List Part} : List.Forall₂ Agree ps qs → AgreeParts (.many ps) (.many qs)

variable {s : Scope} {p q : Part} {ps qs : List Part} {parts parts' : Parts}

theorem agreeParts_partsBy {render render' : Shape → Option String → Trail Expr} {shape : Shape}
    (h : ∀ c ∈ shape.children, c.head.alias? = none → render c = render' c) :
    AgreeParts (partsBy render shape) (partsBy render' shape) := by
  have agree : ∀ c ∈ shape.children, Agree ⟨c.head, render c⟩ ⟨c.head, render' c⟩ :=
    fun c hc => ⟨rfl, h c hc⟩
  cases shape with
  | leaf k => exact .none
  | single k c => exact .one (agree c (List.mem_singleton_self c))
  | group k cs =>
    refine .many ?_
    rw [List.forall₂_map_left_iff, List.forall₂_map_right_iff, List.forall₂_same]
    exact agree

theorem Agree.argument (h : Agree p q) (hint : Option String) :
    argument p hint = argument q hint := by
  unfold Scope.argument
  rw [← h.head]
  split
  · rfl
  · next hn => rw [h.render hn]

theorem Agree.renderMember (h : Agree p q) : s.renderMember p = s.renderMember q := by
  unfold Scope.renderMember
  rw [← h.head]
  split
  · rfl
  · next hn => rw [h.render hn]

theorem Agree.mentionAliases (h : List.Forall₂ Agree ps qs) :
    s.mentionAliases ps = s.mentionAliases qs := by
  have hheads : (ps.filterMap fun p => p.head.alias?) = qs.filterMap fun q => q.head.alias? := by
    induction h with
    | nil => rfl
    | cons hpq _ ih => rw [List.filterMap_cons, List.filterMap_cons, hpq.head, ih]
  rw [Scope.mentionAliases, Scope.mentionAliases, hheads]

theorem Agree.renderFields (h : List.Forall₂ Agree ps qs) (index : Nat) :
    s.renderFields index ps = s.renderFields index qs := by
  induction h generalizing index with
  | nil => rfl
  | cons hpq _ ih =>
    rw [Scope.renderFields, Scope.renderFields, hpq.renderMember, ih, hpq.head]

theorem Agree.renderMembers (h : List.Forall₂ Agree ps qs) :
    Trail.mapEach s.renderMember ps = Trail.mapEach s.renderMember qs := by
  induction h with
  | nil => rfl
  | cons hpq _ ih => rw [Trail.mapEach, Trail.mapEach, hpq.renderMember, ih]

theorem AgreeParts.wrap (h : AgreeParts parts parts') (shape : Shape) (wrapper : String)
    (hint : Option String) :
    s.wrap shape parts wrapper hint = s.wrap shape parts' wrapper hint := by
  cases h with
  | none => rfl
  | many _ => rfl
  | one hpq =>
    have hmentions := Agree.mentionAliases (s := s) (.cons hpq .nil)
    simp only [Scope.wrap, hmentions, hpq.argument]

theorem AgreeParts.wrapTwo (h : AgreeParts parts parts') (shape : Shape) (wrapper : String) :
    s.wrapTwo shape parts wrapper = s.wrapTwo shape parts' wrapper := by
  rcases h with _ | _ | (_ | ⟨ha, _ | ⟨hb, _ | ⟨_, _⟩⟩⟩)
  case many.cons.cons.nil =>
    unfold Scope.wrapTwo
    simp only [listed, Trail.pure_eq, Trail.bind_eq, Trail.done_andThen, ha.argument, hb.argument,
      Agree.mentionAliases (.cons ha (.cons hb .nil))]
  all_goals rfl

theorem AgreeParts.listed (h : AgreeParts parts parts') (shape : Shape)
    {f g : List Part → Trail Expr}
    (hfg : ∀ ps qs, List.Forall₂ Agree ps qs → f ps = g qs) :
    (listed shape parts).andThen f = (listed shape parts').andThen g := by
  cases h with
  | none => exact hfg [] [] .nil
  | one _ => rfl
  | many hpqs =>
    show (Trail.done _).andThen f = (Trail.done _).andThen g
    rw [Trail.done_andThen, Trail.done_andThen]
    exact hfg _ _ hpqs

/-- What a rule gives depends on nothing but the parts that it renders and what it follows. -/
theorem rule_congr {render render' : Shape → Option String → Trail Expr}
    {follow follow' : Shape → Trail Expr} {shape : Shape}
    (hrender : shape.isOpened = true → ∀ c ∈ shape.children, c.head.alias? = none →
      render c = render' c)
    (hfollow : shape.head.tag = .si → ∀ entry, s.target shape.head = .ok entry →
      follow entry = follow' entry) (hint : Option String) :
    s.rule follow shape (partsBy render shape) hint =
      s.rule follow' shape (partsBy render' shape) hint := by
  have opened : shape.isOpened = true →
      AgreeParts (partsBy render shape) (partsBy render' shape) :=
    fun h => agreeParts_partsBy (hrender h)
  -- a rule that looks at the name of the shape opens it only where there is none
  have aliasOr : ∀ t t' : Trail Expr, (shape.head.alias? = none → t = t') →
      aliasOr shape.head t = aliasOr shape.head t' := by
    intro t t' ht
    unfold Scope.aliasOr
    split
    · rfl
    · next hn => exact ht hn
  unfold rule
  dsimp only
  cases htag : shape.head.tag with
  | compact | option | vec | bTreeSet | linkage | wrapperOpaque =>
    exact (opened (by rw [Shape.isOpened, htag]; rfl)).wrap _ _ _
  | bTreeMap | hashMap | result =>
    exact (opened (by rw [Shape.isOpened, htag]; rfl)).wrapTwo _ _
  | vecFixed =>
    cases shape with
    | leaf k => rfl
    | group k cs => rfl
    | single k c =>
      dsimp only [partsBy]
      by_cases hbytes : c.head.type = "u8"
      · rw [if_pos hbytes, if_pos hbytes]
      · rw [if_neg hbytes, if_neg hbytes]
        have hopened : (Shape.single k c).isOpened = true := by
          rw [Shape.isOpened, htag]
          simp [Shape.children, hbytes]
        exact (opened hopened).wrap _ _ _
  | struct =>
    refine aliasOr _ _ fun hn => (opened (by rw [Shape.isOpened, htag, hn]; rfl)).listed shape ?_
    intro ps qs hpqs
    rw [Agree.mentionAliases hpqs, Agree.renderFields hpqs]
  | tuple =>
    refine aliasOr _ _ fun hn => (opened (by rw [Shape.isOpened, htag, hn]; rfl)).listed shape ?_
    intro ps qs hpqs
    rw [Agree.mentionAliases hpqs, Agree.renderMembers hpqs]
  | si =>
    dsimp only
    split
    · next entry htarget => exact hfollow htag entry htarget
    · rfl
  | _ => rfl

/-- One step of rendering asks for nothing but the shapes on which it calls itself. -/
theorem renderBy_congr {render render' : Shape → Option String → Trail Expr} {shape : Shape}
    (h : ∀ callee ∈ s.registry.calls shape, render callee = render' callee)
    (hint : Option String) : s.renderBy render shape hint = s.renderBy render' shape hint := by
  unfold renderBy
  congr
  funext _
  refine rule_congr (fun hopened c hc hn => ?_) (fun hsi entry htarget => ?_) hint
  · exact h c (Registry.mem_calls.2 (.inl ⟨hopened, hc, hn⟩))
  · exact congrFun (h entry (Registry.mem_calls.2 (.inr ⟨hsi, htarget⟩))) none

/-- Rendering depends on nothing but the entries that the shape leads to. -/
theorem renderShape_congr {follow follow' : Shape → Trail Expr} {shape : Shape}
    (h : ∀ entry, s.registry.Leads shape entry → follow entry = follow' entry) :
    s.renderShape follow shape = s.renderShape follow' shape := by
  induction shape using Shape.induction_children with
  | step shape ih =>
    funext hint
    rw [renderShape_eq, renderShape_eq, beneath_eq_partsBy, beneath_eq_partsBy]
    congr
    funext _
    refine rule_congr (fun hopened c hc hn => ih c hc ?_) (fun hsi entry htarget => ?_) hint
    · rintro entry ⟨t, ht, htag, htarget⟩
      have hnamed := Shape.isNamed_eq_false_of_isOpened hopened
      exact h entry ⟨t, .beneath hnamed hc hn ht, htag, htarget⟩
    · exact h entry ⟨shape, .refl shape, hsi, htarget⟩

/-! ## Without a bound -/

/-- With a hop for every entry, one more changes nothing. -/
theorem renderWithin_succ {hops : Nat} {visited : List Shape} {shape : Shape}
    (hpath : s.Path visited hops shape) (hacyclic : s.registry.AcyclicFrom shape) :
    s.renderWithin hops shape = s.renderWithin (hops + 1) shape := by
  induction hops generalizing visited shape with
  | zero =>
    refine renderShape_congr ?_
    intro entry hentry
    exact absurd hentry (hpath.not_leads hacyclic)
  | succ hops ih =>
    refine renderShape_congr ?_
    intro entry hentry
    exact congrFun (ih (hpath.next hacyclic hentry) (hacyclic.next hentry)) none

/-- Without cycles an indirection is rendered as the entry that it leads to, however many were
followed before. -/
theorem render_eq_renderShape (hacyclic : s.registry.Acyclic) (shape : Shape) :
    s.render shape = s.renderShape (fun entry => s.render entry none) shape := by
  have hstep : s.render shape = s.renderWithin (s.registry.entries.length + 1) shape :=
    renderWithin_succ (.start s shape) (hacyclic.acyclicFrom shape)
  rw [hstep]
  rfl

/-- Without cycles rendering is a recursion that needs no bound. -/
theorem render_eq_renderBy (hacyclic : s.registry.Acyclic) (shape : Shape)
    (hint : Option String) : s.render shape hint = s.renderBy s.render shape hint := by
  have hrender : s.renderShape (fun entry => s.render entry none) = s.render :=
    funext fun c => (render_eq_renderShape hacyclic c).symm
  rw [render_eq_renderShape hacyclic, renderShape_eq, beneath_eq_partsBy, hrender, renderBy]

end Scope

/-! ## The tree of calls -/

namespace Registry

variable {r : Registry}

/-- Rendering a shape makes so many calls, the one on the shape itself and those that come of it. -/
inductive Visits (r : Registry) : Nat → Shape → Prop
  | node {shape counts} : List.Forall₂ r.Visits counts (r.calls shape) →
    Visits r (counts.foldr (· + ·) 1) shape

/-- The shape makes finitely many calls if the entries that it leads to do. -/
theorem exists_visits_of_leads {shape : Shape}
    (h : ∀ entry, r.Leads shape entry → ∃ n, r.Visits n entry) : ∃ n, r.Visits n shape := by
  have count : ∀ callees : List Shape, (∀ callee ∈ callees, ∃ n, r.Visits n callee) →
      ∃ counts, List.Forall₂ r.Visits counts callees := by
    intro callees heach
    induction callees with
    | nil => exact ⟨[], .nil⟩
    | cons callee callees ih =>
      obtain ⟨n, hn⟩ := heach callee (by simp)
      obtain ⟨ns, hns⟩ := ih fun d hd => heach d (List.mem_cons_of_mem _ hd)
      exact ⟨n :: ns, .cons hn hns⟩
  induction shape using Shape.induction_children with
  | step shape ih =>
    have each : ∀ callee ∈ r.calls shape, ∃ n, r.Visits n callee := by
      intro callee hcallee
      rcases leads_of_mem_calls hcallee with hleads | ⟨hc, hleads⟩
      · exact h callee hleads
      · exact ih callee hc fun entry hentry => h entry (hleads entry hentry)
    obtain ⟨counts, hcounts⟩ := count _ each
    exact ⟨counts.foldr (· + ·) 1, .node hcounts⟩

/-- Without cycles rendering makes finitely many calls. -/
theorem exists_visits (hacyclic : r.Acyclic) (shape : Shape) : ∃ n, r.Visits n shape := by
  have path : ∀ hops visited shape, Scope.Path ⟨r, []⟩ visited hops shape →
      ∃ n, r.Visits n shape := by
    intro hops
    induction hops with
    | zero =>
      intro visited shape hpath
      refine exists_visits_of_leads ?_
      intro entry hentry
      exact absurd hentry (hpath.not_leads (hacyclic.acyclicFrom shape))
    | succ hops ih =>
      intro visited shape hpath
      refine exists_visits_of_leads ?_
      intro entry hentry
      exact ih _ entry (hpath.next (hacyclic.acyclicFrom shape) hentry)
  exact path _ [] shape (.start ⟨r, []⟩ shape)

end Registry

end ChainTypings
