import ChainTypings.Proofs.Render.Parts
import ChainTypings.Proofs.Session.ByName

/-!
# What rendering gives

The expression that a rule gives is a name, or it is put together from what its parts are rendered
as, or it is what an indirection leads to. `Given` is the list of these cases, said once for all
rules (`given_of_rule`), and what is beneath is again rendered (`given_of_renderShape`). So for a
property of whatever is rendered there is one case to look at for each form of expression, not one
for each tag.
-/

namespace ChainTypings

namespace Trail

variable {α β : Type}

theorem ok_map {t : Trail α} {g : α → β} {b : β} :
    (t.andThen fun a => done (g a)).outcome = .ok b ↔ ∃ a, t.outcome = .ok a ∧ g a = b := by
  rw [ok_andThen]
  simp [done]

/-- The results of going through a list are those of its steps. -/
theorem exists_of_mem_mapEach {f : α → Trail β} {as : List α} {bs : List β}
    (h : (mapEach f as).outcome = .ok bs) {b : β} (hb : b ∈ bs) :
    ∃ a ∈ as, (f a).outcome = .ok b := by
  induction as generalizing bs with
  | nil =>
    obtain rfl := Except.ok.inj h
    exact absurd hb List.not_mem_nil
  | cons a as ih =>
    obtain ⟨b', hb', h⟩ := ok_andThen.1 h
    obtain ⟨bs', hbs', rfl⟩ := ok_map.1 h
    rcases List.mem_cons.1 hb with rfl | hb
    · exact ⟨a, List.mem_cons_self, hb'⟩
    · obtain ⟨a', ha', hok⟩ := ih hbs' hb
      exact ⟨a', List.mem_cons_of_mem _ ha', hok⟩

end Trail

namespace Scope

variable {s : Scope} {follow : Shape → Trail Expr}

/-- The keys of fields, the first of them at place `index`. -/
def fieldKeys (index : Nat) (ps : List Part) : List String :=
  (ps.zipIdx index).map fun p => p.1.head.label?.getD (placeKey p.2)

/-- The fields of a structure are its members under their keys. -/
theorem renderFields_eq (s : Scope) (index : Nat) (ps : List Part) :
    s.renderFields index ps =
      (Trail.mapEach s.renderMember ps).andThen fun es => .done ((fieldKeys index ps).zip es) := by
  induction ps generalizing index with
  | nil => rfl
  | cons p ps ih =>
    rw [renderFields, Trail.mapEach]
    simp only [Trail.bind_eq, Trail.pure_eq, ih, Trail.andThen_assoc, Trail.done_andThen]
    rfl

theorem ok_named {type : String} {typeName : Option String} {e : Expr}
    (h : (s.named type typeName).outcome = .ok e) :
    e = .name type ∨ ∃ label, typeName.bind (Label.labelFor? type) = some label ∧
      e = .labelled label type := by
  unfold named at h
  split at h
  · next label hlabel =>
    obtain ⟨_, _, rfl⟩ := Trail.ok_map.1 h
    exact .inr ⟨label, hlabel, rfl⟩
  · exact .inl (Except.ok.inj h).symm

/-- An argument is given by the declared name of its part or else by rendering it. -/
theorem ok_argument {p : Part} {hint : Option String} {e : Expr}
    (h : (argument p hint).outcome = .ok e) :
    (∃ n, p.head.alias? = some n ∧ e = .name n) ∨ (p.render hint).outcome = .ok e := by
  unfold argument at h
  split at h
  · next n hn => exact .inl ⟨n, hn, (Except.ok.inj h).symm⟩
  · exact .inr h

/-- A member is given by the declared name of its part, maybe labelled, or else by rendering it. -/
theorem ok_renderMember {p : Part} {e : Expr} (h : (s.renderMember p).outcome = .ok e) :
    (∃ n, p.head.alias? = some n ∧ (s.named n p.head.hint?).outcome = .ok e) ∨
      (p.render p.head.hint?).outcome = .ok e := by
  unfold renderMember at h
  split at h
  · next n hn =>
    obtain ⟨_, _, h⟩ := Trail.ok_andThen.1 h
    exact .inl ⟨n, hn, h⟩
  · exact .inr h

/-- What the rule of a shape gives: the name under which the shape is declared, a name that the
rule puts in, the type itself, a wrapper around arguments, a list of members, or what following the
shape gives. -/
inductive Given (s : Scope) (follow : Shape → Trail Expr) (shape : Shape) (parts : Parts) :
    Expr → Prop
  | declared {n} : shape.head.alias? = some n → Given s follow shape parts (.name n)
  | marker {n} : n ∈ markers → Given s follow shape parts (.name n)
  | plain {hint e} : shape.head.tag = .plain → (s.named shape.head.type hint).outcome = .ok e →
      Given s follow shape parts e
  | wrap {w p hint a} : w ∈ markers → p ∈ parts.toList → (argument p hint).outcome = .ok a →
      Given s follow shape parts (.wrap w a)
  | wrapTwo {w p q a b} : w ∈ markers → p ∈ parts.toList → q ∈ parts.toList →
      (argument p none).outcome = .ok a → (argument q none).outcome = .ok b →
      Given s follow shape parts (.wrapTwo w a b)
  | tuple {es} : (Trail.mapEach s.renderMember parts.toList).outcome = .ok es →
      Given s follow shape parts (.tuple es)
  | struct {es} : shape.head.tag = .struct → shape.head.alias? = none →
      (Trail.mapEach s.renderMember parts.toList).outcome = .ok es →
      Given s follow shape parts (.struct ((fieldKeys 0 parts.toList).zip es))
  | followed {entry e} : s.target shape.head = .ok entry → (follow entry).outcome = .ok e →
      Given s follow shape parts e

variable {shape : Shape} {parts : Parts} {e : Expr}

theorem given_of_wrap {wrapper : String} {hint : Option String} (hw : wrapper ∈ markers)
    (h : (s.wrap shape parts wrapper hint).outcome = .ok e) : Given s follow shape parts e := by
  cases parts with
  | none => cases h
  | many ps => cases h
  | one p =>
    obtain ⟨_, _, h⟩ := Trail.ok_andThen.1 h
    obtain ⟨_, _, h⟩ := Trail.ok_andThen.1 h
    obtain ⟨a, ha, rfl⟩ := Trail.ok_map.1 h
    exact .wrap hw (List.mem_singleton_self p) ha

theorem given_of_wrapTwo {wrapper : String} (hw : wrapper ∈ markers)
    (h : (s.wrapTwo shape parts wrapper).outcome = .ok e) : Given s follow shape parts e := by
  rcases parts with _ | p | _ | ⟨p, _ | ⟨q, _ | ⟨r, ps⟩⟩⟩
  case many.cons.cons.nil =>
    obtain ⟨_, _, h⟩ := Trail.ok_andThen.1 h
    obtain ⟨_, _, h⟩ := Trail.ok_andThen.1 h
    obtain ⟨a, ha, h⟩ := Trail.ok_andThen.1 h
    obtain ⟨b, hb, rfl⟩ := Trail.ok_map.1 h
    exact .wrapTwo hw List.mem_cons_self (List.mem_cons_of_mem _ List.mem_cons_self) ha hb
  all_goals cases h

/-- Whatever a rule gives is one of the cases. -/
theorem given_of_rule {hint : Option String}
    (h : (s.rule follow shape parts hint).outcome = .ok e) : Given s follow shape parts e := by
  have marker : ∀ n ∈ markers,
      ((s.mention n).andThen fun _ => .done (Expr.name n)).outcome = .ok e →
        Given s follow shape parts e := by
    intro n hn h
    obtain ⟨_, _, rfl⟩ := Trail.ok_map.1 h
    exact .marker hn
  have aliasOr : ∀ t : Trail Expr,
      (shape.head.alias? = none → t.outcome = .ok e → Given s follow shape parts e) →
        (aliasOr shape.head t).outcome = .ok e → Given s follow shape parts e := by
    intro t ht h
    unfold Scope.aliasOr at h
    split at h
    · next n hn =>
      obtain rfl := Except.ok.inj h
      exact .declared hn
    · next hn => exact ht hn h
  -- the members of a list are looked at once the list is known to be one
  have listed : ∀ f : List Part → Trail Expr, ((listed shape parts).andThen f).outcome = .ok e →
      (f parts.toList).outcome = .ok e := by
    intro f h
    rcases listed_cases shape parts with hl | hl
    · rw [hl] at h
      cases h
    · rwa [hl, Trail.done_andThen] at h
  unfold rule at h
  dsimp only at h
  cases htag : shape.head.tag <;> rw [htag] at h <;> dsimp only at h
  case compact | option | vec | bTreeSet | linkage | wrapperOpaque =>
    exact given_of_wrap (by decide) h
  case bTreeMap | hashMap | result => exact given_of_wrapTwo (by decide) h
  case doNotConstruct | null => exact marker _ (by decide) h
  case int | uInt | range | set => cases h
  case vecFixed =>
    split at h
    · split at h
      · exact marker _ (by decide) h
      · exact given_of_wrap (by decide) h
    · cases h
  case enum =>
    refine aliasOr _ (fun _ h => ?_) h
    cases h
  case plain =>
    refine aliasOr _ (fun _ h => ?_) h
    obtain ⟨_, _, h⟩ := Trail.ok_andThen.1 h
    exact .plain htag h
  case tuple =>
    refine aliasOr _ (fun _ h => ?_) h
    obtain ⟨_, _, h⟩ := Trail.ok_andThen.1 (listed _ h)
    obtain ⟨_, _, h⟩ := Trail.ok_andThen.1 h
    obtain ⟨es, hes, rfl⟩ := Trail.ok_map.1 h
    exact .tuple hes
  case struct =>
    refine aliasOr _ (fun hn h => ?_) h
    obtain ⟨_, _, h⟩ := Trail.ok_andThen.1 (listed _ h)
    obtain ⟨_, _, h⟩ := Trail.ok_andThen.1 h
    obtain ⟨fields, hfields, rfl⟩ := Trail.ok_map.1 h
    rw [renderFields_eq] at hfields
    obtain ⟨es, hes, rfl⟩ := Trail.ok_map.1 hfields
    exact .struct htag hn hes
  case si =>
    split at h
    · next entry hentry => exact .followed hentry h
    · cases h

/-- Rendering a shape gives what its rule gives for the shapes directly beneath. -/
theorem given_of_renderShape {hint : Option String}
    (h : (s.renderShape follow shape hint).outcome = .ok e) :
    Given s follow shape (s.beneath follow shape) e := by
  rw [renderShape_eq] at h
  obtain ⟨_, _, h⟩ := Trail.ok_andThen.1 h
  exact given_of_rule h

end Scope

end ChainTypings
