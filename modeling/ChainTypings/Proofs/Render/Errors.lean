import ChainTypings.Proofs.Render.Given
import ChainTypings.Proofs.Render.References
import ChainTypings.Proofs.Shape.Valence

/-!
# How rendering fails

Rendering a shape fails where a type text cannot be taken apart, where a shape has no rule or not
what its rule needs, and where an indirection leads nowhere or to what cannot be rendered. It
fails nowhere else: an error that rendering ends in comes from a node that it comes by or from an
entry that it leads to, and what may go wrong at a node is said by `Accounts`
(`allErrors_renderShape`).

Not every node is come by. What is declared under a name is referred to by it, as a part always
and by itself if its tag looks at the name (`Shape.Reaches`).
-/

namespace ChainTypings

open Import

/-- The tags without a rule, unless for the name of the shape. -/
def Tag.unruled : List Tag := [enum, int, range, set, uInt]

namespace Shape

/-- What rendering may find wrong with the shape itself: there is no rule for it, or it does not
fit its tag. -/
def Lacks (s : Shape) (reason : Unsupported) : Prop :=
  reason = .noRule ∧ s.head.tag ∈ Tag.unruled ∨ ¬ s.Fits

/-- Whether the shape is rendered as the name under which it is declared. -/
def isNamed (s : Shape) : Bool := s.head.tag.isReferred && s.head.alias?.isSome

theorem isNamed_eq_false {s : Shape}
    (h : s.head.tag.valence = .one ∨ s.head.tag.valence = .two) : s.isNamed = false := by
  have htags : ∀ t ∈ Tag.all, t.valence = .one ∨ t.valence = .two → t.isReferred = false := by
    decide
  rw [isNamed, htags _ s.head.tag.mem_all h, Bool.false_and]

/-- Rendering the first shape comes by the second, which is the shape itself or stands beneath. -/
inductive Reaches : Shape → Shape → Prop
  | refl (s : Shape) : Reaches s s
  | beneath {s c t : Shape} : s.isNamed = false → c ∈ s.children → c.head.alias? = none →
      Reaches c t → Reaches s t

/-- What rendering comes by is the shape itself or stands beneath it. -/
theorem Everywhere.of_reaches {p : Shape → Prop} {s t : Shape} (h : Everywhere p s)
    (ht : s.Reaches t) : p t := by
  induction ht with
  | refl s => exact h.here
  | beneath _ hc _ _ ih => exact ih (h.beneath hc)

/-- The heads that rendering comes by are among those of the shape. -/
theorem Reaches.mem_heads {s t : Shape} (h : s.Reaches t) {k : Head} (hk : k ∈ t.heads) :
    k ∈ s.heads := by
  induction h with
  | refl _ => exact hk
  | beneath _ hc _ _ ih => exact mem_heads_of_mem_children hc (ih hk)

end Shape

/-- Rendering the shape follows an indirection to the entry. -/
def Registry.Leads (r : Registry) (shape entry : Shape) : Prop :=
  ∃ t, shape.Reaches t ∧ t.head.tag = .si ∧ Scope.target ⟨r, []⟩ t.head = .ok entry

namespace Scope

/-- Whatever may go wrong at the node of a shape itself gives an error with the property: taking
apart how it and what is directly beneath are referred to, its want of a rule or of what the rule
needs, and an indirection that leads nowhere. -/
structure Accounts (s : Scope) (p : RenderError → Prop) (shape : Shape) : Prop where
  reference : (s.mention shape.head.reference).AllErrors p
  aliases : ∀ c ∈ shape.children, ∀ n, c.head.alias? = some n → (s.mention n).AllErrors p
  lacks : ∀ reason, shape.Lacks reason → p (.unsupported shape reason)
  astray : ∀ e, s.target shape.head = .error e → p e

/-- Neither mentioning the name of a part nor rendering it gives other errors. -/
structure AccountsPart (s : Scope) (p : RenderError → Prop) (q : Part) : Prop where
  declared : ∀ n, q.head.alias? = some n → (s.mention n).AllErrors p
  rendered : q.head.alias? = none → ∀ hint, (q.render hint).AllErrors p

variable {s : Scope} {p : RenderError → Prop}

/-! ## Indirections -/

theorem lookup_eq_error {r : Registry} {index : Json} {e : RenderError}
    (h : lookup r index = .error e) :
    e = .unusableIndex index ∧ index.key? = none ∨ e = .unknownIndex index := by
  unfold lookup at h
  split at h
  · next hkey => exact .inl ⟨(Except.error.inj h).symm, hkey⟩
  · split at h
    · cases h
    · exact .inr (Except.error.inj h).symm

/-- An indirection that leads nowhere has no index, an unusable one or one without an entry. -/
theorem target_eq_error {h : Head} {e : RenderError} (he : s.target h = .error e) :
    e = .noIndex h.type ∨ ∃ index, targetIndex h = .ok index ∧
      (e = .unusableIndex index ∧ index.key? = none ∨ e = .unknownIndex index) := by
  unfold target at he
  split at he
  · next index hindex => exact .inr ⟨index, hindex, lookup_eq_error he⟩
  · next hindex =>
    obtain rfl := Except.error.inj he
    unfold targetIndex at hindex
    split at hindex
    · split at hindex
      · cases hindex
      · exact .inl (Except.error.inj hindex).symm
    · cases hindex

/-! ## Mentions -/

/-- Mentioning the names of a type text fails only where that text, or one of a type beneath it, has
no shape. -/
theorem allErrors_mentions {q : List Char → Prop}
    (hq : ∀ text shape, q text → Shape.parse text = .ok shape →
      ∀ c ∈ shape.children, q c.head.type.toList)
    (hp : ∀ text e, q text → Shape.parse text = .error e → p (.parse e)) (ignored : List String)
    {cs : List Char} (hcs : q cs) : (mentions ignored cs).AllErrors p := by
  induction hw : Text.weight cs using Nat.strongRecOn generalizing cs with
  | ind w ih =>
    rw [mentions_eq]
    cases hstep : stepOf ignored cs with
    | nothing => exact .done ()
    | name => exact .mention _
    | compound =>
      cases hparse : Shape.parse cs with
      | error e => exact .fail (hp cs e hcs hparse)
      | ok shape =>
        have hnote : (note ignored shape.head.tag.name).AllErrors p := by
          rw [note_eq]
          intro e he
          cases he
        refine hnote.andThen fun _ => .forEach ?_
        intro c hc
        -- what stands beneath a type weighs less than its text
        have hlt := Shape.weight_type_lt hparse hc
        exact ih _ (hw ▸ hlt) (hq cs shape hcs hparse c hc) rfl

/-- What the rules put in can always be mentioned. -/
theorem allErrors_marker {n : String} (hn : n ∈ markers) :
    (s.mention n).AllErrors p := by
  have hwords : ∀ n ∈ markers, n.toList ≠ [] ∧ n.toList.all Text.isWordChar = true := by
    decide +kernel
  obtain ⟨hne, hword⟩ := hwords n hn
  rw [mention, mentionsOf_word _ hne (Text.isWord_of_all hword)]
  exact .done ()

theorem allErrors_named (type : String) (typeName : Option String) :
    (s.named type typeName).AllErrors p := by
  unfold named
  split
  · exact (allErrors_marker (by decide)).map _
  · exact .done _

theorem allErrors_mentionAliases {qs : List Part} (h : ∀ q ∈ qs, s.AccountsPart p q) :
    (s.mentionAliases qs).AllErrors p := by
  refine .forEach ?_
  intro n hn
  obtain ⟨q, hq, hn⟩ := List.mem_filterMap.1 hn
  exact (h q hq).declared n hn

/-! ## Parts -/

theorem AccountsPart.argument {q : Part} (h : s.AccountsPart p q) (hint : Option String) :
    (argument q hint).AllErrors p := by
  unfold Scope.argument
  split
  · exact .done _
  · next hn => exact h.rendered hn hint

theorem AccountsPart.renderMember {q : Part} (h : s.AccountsPart p q) :
    (s.renderMember q).AllErrors p := by
  unfold Scope.renderMember
  split
  · next n hn => exact (h.declared n hn).andThen fun _ => allErrors_named _ _
  · next hn => exact h.rendered hn _

theorem allErrors_renderFields {qs : List Part} (h : ∀ q ∈ qs, s.AccountsPart p q)
    (index : Nat) : (s.renderFields index qs).AllErrors p := by
  rw [renderFields_eq]
  exact (Trail.AllErrors.mapEach fun q hq => (h q hq).renderMember).map _

/-! ## Rules -/

section

variable {follow : Shape → Trail Expr} {shape : Shape} (hs : s.Accounts p shape)
  (h : shape.isNamed = false → ∀ q ∈ (s.beneath follow shape).toList, s.AccountsPart p q)

include hs

theorem Accounts.unfit {v : Valence} (hv : shape.head.tag.valence = v)
    (hadmits : v.admits shape = false) (reason : Unsupported) : p (.unsupported shape reason) := by
  refine hs.lacks reason (.inr fun hfit => ?_)
  rw [Shape.Fits, hv, hadmits] at hfit
  cases hfit

theorem Accounts.noRule (htag : shape.head.tag ∈ Tag.unruled) :
    p (.unsupported shape .noRule) :=
  hs.lacks _ (.inl ⟨rfl, htag⟩)

theorem Accounts.mention_type (htag : shape.head.tag = .plain) (hnamed : shape.isNamed = false) :
    (s.mention shape.head.type).AllErrors p := by
  -- without a name the type itself is the reference
  have hreference : shape.head.reference = shape.head.type := by
    rw [Shape.isNamed, htag, Tag.isReferred, Bool.true_and, Option.isSome_eq_false_iff,
      Option.isNone_iff_eq_none] at hnamed
    rw [Head.reference, hnamed]
    rfl
  exact hreference ▸ hs.reference

theorem allErrors_listed (hmany : shape.head.tag.valence = .many) {f : List Part → Trail Expr}
    (hf : (f (s.beneath follow shape).toList).AllErrors p) :
    ((listed shape (s.beneath follow shape)).andThen f).AllErrors p := by
  cases shape with
  | leaf k => exact hf
  | group k cs => exact hf
  | single k c => exact .fail (hs.unfit hmany rfl _)

include h

theorem allErrors_wrap (hone : shape.head.tag.valence = .one) {wrapper : String}
    (hw : wrapper ∈ markers) (hint : Option String) :
    (s.wrap shape (s.beneath follow shape) wrapper hint).AllErrors p := by
  have hparts := h (Shape.isNamed_eq_false (.inl hone))
  cases shape with
  | leaf k => exact .fail (hs.unfit hone rfl _)
  | group k cs => exact .fail (hs.unfit hone rfl _)
  | single k c =>
    refine (allErrors_marker hw).andThen ?_
    intro _
    refine (allErrors_mentionAliases hparts).andThen ?_
    intro _
    exact ((hparts _ (List.mem_singleton_self _)).argument hint).map _

theorem allErrors_wrapTwo (htwo : shape.head.tag.valence = .two) {wrapper : String}
    (hw : wrapper ∈ markers) : (s.wrapTwo shape (s.beneath follow shape) wrapper).AllErrors p := by
  have hparts := h (Shape.isNamed_eq_false (.inr htwo))
  rcases shape with k | ⟨k, c⟩ | ⟨k, _ | ⟨a, _ | ⟨b, _ | ⟨c, cs⟩⟩⟩⟩
  case group.cons.cons.nil =>
    refine (allErrors_marker hw).andThen ?_
    intro _
    refine (allErrors_mentionAliases hparts).andThen ?_
    intro _
    refine ((hparts _ List.mem_cons_self).argument none).andThen ?_
    intro _
    exact ((hparts _ (List.mem_cons_of_mem _ List.mem_cons_self)).argument none).map _
  all_goals exact .fail (hs.unfit htwo (by simp [Valence.admits]) _)

/-- The rules fail only as the node accounts for and as what it leads to fails. -/
theorem allErrors_rule (hf : ∀ entry, s.registry.Leads shape entry → (follow entry).AllErrors p)
    (hint : Option String) :
    (s.rule follow shape (s.beneath follow shape) hint).AllErrors p := by
  -- a rule that looks at the name of the shape is applied only where there is none
  have aliasOr : shape.head.tag.isReferred = true → ∀ t : Trail Expr,
      (shape.isNamed = false → t.AllErrors p) → (aliasOr shape.head t).AllErrors p := by
    intro htag t ht
    unfold Scope.aliasOr
    split
    · exact .done _
    · next hn => exact ht (by rw [Shape.isNamed, hn, htag]; rfl)
  unfold rule
  dsimp only
  cases htag : shape.head.tag with
  | compact => exact allErrors_wrap hs h (by rw [htag]; rfl) (by decide) _
  | option => exact allErrors_wrap hs h (by rw [htag]; rfl) (by decide) _
  | vec => exact allErrors_wrap hs h (by rw [htag]; rfl) (by decide) _
  | bTreeSet => exact allErrors_wrap hs h (by rw [htag]; rfl) (by decide) _
  | linkage => exact allErrors_wrap hs h (by rw [htag]; rfl) (by decide) _
  | wrapperOpaque => exact allErrors_wrap hs h (by rw [htag]; rfl) (by decide) _
  | vecFixed =>
    have hwrap : (s.wrap shape (s.beneath follow shape) "Vec" none).AllErrors p :=
      allErrors_wrap hs h (by rw [htag]; rfl) (by decide) none
    cases shape with
    | leaf k => exact hwrap
    | group k cs => exact hwrap
    | single k c =>
      dsimp only [beneath]
      split
      · exact (allErrors_marker (by decide)).map _
      · exact hwrap
  | bTreeMap => exact allErrors_wrapTwo hs h (by rw [htag]; rfl) (by decide)
  | hashMap => exact allErrors_wrapTwo hs h (by rw [htag]; rfl) (by decide)
  | result => exact allErrors_wrapTwo hs h (by rw [htag]; rfl) (by decide)
  | doNotConstruct => exact (allErrors_marker (by decide)).map _
  | null => exact (allErrors_marker (by decide)).map _
  | enum => exact aliasOr (by rw [htag]; rfl) _ fun _ => .fail (hs.noRule (by rw [htag]; decide))
  | plain =>
    refine aliasOr (by rw [htag]; rfl) _ fun hnamed => ?_
    exact (hs.mention_type htag hnamed).andThen fun _ => allErrors_named _ _
  | struct =>
    refine aliasOr (by rw [htag]; rfl) _ fun hnamed =>
      allErrors_listed hs (by rw [htag]; rfl) ?_
    refine (allErrors_marker (by decide)).andThen ?_
    intro _
    refine (allErrors_mentionAliases (h hnamed)).andThen ?_
    intro _
    exact (allErrors_renderFields (h hnamed) 0).map _
  | tuple =>
    refine aliasOr (by rw [htag]; rfl) _ fun hnamed =>
      allErrors_listed hs (by rw [htag]; rfl) ?_
    refine (allErrors_marker (by decide)).andThen ?_
    intro _
    refine (allErrors_mentionAliases (h hnamed)).andThen ?_
    intro _
    exact (Trail.AllErrors.mapEach fun q hq => (h hnamed q hq).renderMember).map _
  | si =>
    dsimp only
    split
    · next entry htarget => exact hf entry ⟨shape, .refl shape, htag, htarget⟩
    · next e htarget => exact .fail (hs.astray e htarget)
  | int => exact .fail (hs.noRule (by rw [htag]; decide))
  | uInt => exact .fail (hs.noRule (by rw [htag]; decide))
  | range => exact .fail (hs.noRule (by rw [htag]; decide))
  | set => exact .fail (hs.noRule (by rw [htag]; decide))

end

/-- Rendering a shape fails only as the nodes that it comes by account for, and as the entries that
it leads to fail. -/
theorem allErrors_renderShape {follow : Shape → Trail Expr} {shape : Shape}
    (h : ∀ t, shape.Reaches t → s.Accounts p t)
    (hf : ∀ entry, s.registry.Leads shape entry → (follow entry).AllErrors p)
    (hint : Option String) :
    (s.renderShape follow shape hint).AllErrors p := by
  induction shape using Shape.induction_children generalizing hint with
  | step shape ih =>
    have hshape := h shape (.refl shape)
    rw [renderShape_eq]
    refine hshape.reference.andThen fun _ => allErrors_rule hshape (fun hnamed q hq => ?_) hf hint
    obtain ⟨c, hc, rfl⟩ := s.mem_beneath follow hq
    refine ⟨hshape.aliases c hc, fun hn => ih c hc (fun t ht => ?_) (fun entry hentry => ?_)⟩
    · exact h t (.beneath hnamed hc hn ht)
    · obtain ⟨t, ht, htag, htarget⟩ := hentry
      exact hf entry ⟨t, .beneath hnamed hc hn ht, htag, htarget⟩

end Scope

end ChainTypings
