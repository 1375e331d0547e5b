import ChainTypings.Proofs.Render.Formatting
import ChainTypings.Proofs.Render.Ranked
import ChainTypings.Proofs.Session.OnePass

/-!
# The two layouts

Written on one line or on several, a shape fails alike, needs the same names in the same order, and
comes out as the same expression: the layout is asked for only where the fields of a structure are
set out (`Call.layouts_agree`). Only a structure without a name is set out at all. If rendering
comes by none, the expression is `Expr.Flat` (`Scope.flat_render`) and both layouts give one text.
-/

namespace ChainTypings

open Relation

/-! ## Structures that are set out -/

/-- Whether the head is that of a structure whose fields are set out: it has no name to be referred
to by. -/
def Head.isInline (h : Head) : Bool := h.tag = .struct && h.alias?.isNone

theorem Head.isInline_iff {h : Head} :
    h.isInline = true ↔ h.tag = .struct ∧ h.alias? = none := by
  rw [isInline, Bool.and_eq_true, decide_eq_true_eq, Option.isNone_iff_eq_none]

/-- Rendering the first shape calls itself on the second, directly or through others. -/
def Registry.Renders (r : Registry) : Shape → Shape → Prop :=
  ReflTransGen fun shape callee => callee ∈ r.calls shape

/-- Whatever is rendered is part of the shape or of an entry. -/
theorem Registry.Renders.mem_heads {r : Registry} {shape t : Shape} (h : r.Renders shape t) :
    t.head ∈ shape.heads ∨ ∃ e ∈ r.entries, t.head ∈ e.2.heads := by
  have within : ∀ k ∈ t.heads, k ∈ shape.heads ∨ ∃ e ∈ r.entries, k ∈ e.2.heads := by
    induction h with
    | refl => exact fun k hk => .inl hk
    | tail _ hcall ih =>
      intro k hk
      rcases Registry.mem_calls.1 hcall with ⟨-, hc, -⟩ | ⟨-, htarget⟩
      · exact ih k (Shape.mem_heads_of_mem_children hc hk)
      · obtain ⟨_, hmem⟩ := Scope.exists_mem_of_target htarget
        exact .inr ⟨_, hmem, hk⟩
  exact within _ t.head_mem_heads

/-- No structure is set out within the expression. -/
inductive Expr.Flat : Expr → Prop
  | name (text) : Flat (.name text)
  | labelled (label type) : Flat (.labelled label type)
  | wrap (w) {a} : Flat a → Flat (.wrap w a)
  | wrapTwo (w) {a b} : Flat a → Flat b → Flat (.wrapTwo w a b)
  | tuple {es} : (∀ e ∈ es, Flat e) → Flat (.tuple es)

/-- An expression in which no structure is set out has the same text in all layouts. -/
theorem Expr.Flat.print_eq {e : Expr} (h : e.Flat) (layout layout' : Layout) :
    e.print layout = e.print layout' := by
  induction h with
  | name _ => rfl
  | labelled _ _ => rfl
  | wrap w _ ih => rw [print, print, ih]
  | wrapTwo w _ _ iha ihb => rw [print, print, iha, ihb]
  | @tuple es _ ih =>
    have heach : es.map (print layout) = es.map (print layout') := List.map_congr_left ih
    rw [print, print, TypeExpr.printEach_eq_map, TypeExpr.printEach_eq_map, heach]

namespace Scope

variable {s : Scope} {shape : Shape} {e : Expr}

theorem flat_named {type : String} {typeName : Option String}
    (h : (s.named type typeName).outcome = .ok e) : e.Flat := by
  rcases ok_named h with rfl | ⟨label, -, rfl⟩
  · exact .name type
  · exact .labelled label type

/-- A rule that sets out no structure gives an expression in which none is set out, if what it asks
for does. -/
theorem flat_of_given {follow : Shape → Trail Expr} {parts : Parts}
    (hinline : shape.head.isInline = false)
    (hparts : ∀ p ∈ parts.toList, ∀ hint e, (p.render hint).outcome = .ok e → e.Flat)
    (hf : ∀ entry e, (follow entry).outcome = .ok e → e.Flat)
    (h : Given s follow shape parts e) : e.Flat := by
  have argument : ∀ p ∈ parts.toList, ∀ hint a, (argument p hint).outcome = .ok a → a.Flat := by
    intro p hp hint a ha
    rcases ok_argument ha with ⟨n, -, rfl⟩ | ha
    · exact .name n
    · exact hparts p hp hint a ha
  cases h with
  | declared _ => exact .name _
  | marker _ => exact .name _
  | plain _ he => exact flat_named he
  | wrap _ hp ha => exact .wrap _ (argument _ hp _ _ ha)
  | wrapTwo _ hp hq ha hb => exact .wrapTwo _ (argument _ hp _ _ ha) (argument _ hq _ _ hb)
  | tuple hes =>
    refine .tuple fun a ha => ?_
    obtain ⟨p, hp, hok⟩ := Trail.exists_of_mem_mapEach hes ha
    rcases ok_renderMember hok with ⟨n, -, hnamed⟩ | hrender
    · exact flat_named hnamed
    · exact hparts p hp _ a hrender
  | struct htag hn _ =>
    rw [Head.isInline_iff.2 ⟨htag, hn⟩] at hinline
    cases hinline
  | followed _ he => exact hf _ _ he

/-- It is enough that the shapes which the rule renders, and the entry that it follows, are rendered
as such expressions. -/
theorem flat_of_rule {render : Shape → Option String → Trail Expr} {follow : Shape → Trail Expr}
    (hinline : shape.head.isInline = false)
    (hrender : ∀ c ∈ shape.children, c ∈ s.registry.calls shape →
      ∀ hint e, (render c hint).outcome = .ok e → e.Flat)
    (hfollow : ∀ entry ∈ s.registry.calls shape, ∀ e, (follow entry).outcome = .ok e → e.Flat)
    {hint : Option String} (h : (s.rule follow shape (partsBy render shape) hint).outcome = .ok e) :
    e.Flat := by
  classical
  -- what the rule does not ask for may as well fail
  let render' (c : Shape) (hint : Option String) : Trail Expr :=
    if c ∈ s.registry.calls shape then render c hint else .fail .endless
  let follow' (entry : Shape) : Trail Expr :=
    if entry ∈ s.registry.calls shape then follow entry else .fail .endless
  have hrule : s.rule follow shape (partsBy render shape) hint =
      s.rule follow' shape (partsBy render' shape) hint := by
    refine rule_congr (fun hopened c hc hn => ?_) (fun hsi entry htarget => ?_) hint
    · funext hint
      exact (if_pos (Registry.mem_calls.2 (.inl ⟨hopened, hc, hn⟩))).symm
    · exact (if_pos (Registry.mem_calls.2 (.inr ⟨hsi, htarget⟩))).symm
  rw [hrule] at h
  refine flat_of_given hinline ?_ ?_ (given_of_rule h)
  · intro p hp hint e he
    obtain ⟨c, hc, rfl⟩ := mem_partsBy hp
    by_cases hcall : c ∈ s.registry.calls shape
    · exact hrender c hc hcall hint e (by simpa [render', hcall] using he)
    · simp [render', hcall, Trail.fail] at he
  · intro entry e he
    by_cases hcall : entry ∈ s.registry.calls shape
    · exact hfollow entry hcall e (by simpa [follow', hcall] using he)
    · simp [follow', hcall, Trail.fail] at he

theorem flat_renderShape {follow : Shape → Trail Expr}
    (hinline : ∀ t, s.registry.Renders shape t → t.head.isInline = false)
    (hf : ∀ entry, s.registry.Renders shape entry →
      ∀ e, (follow entry).outcome = .ok e → e.Flat)
    {hint : Option String} (h : (s.renderShape follow shape hint).outcome = .ok e) : e.Flat := by
  induction shape using Shape.induction_children generalizing hint e with
  | step shape ih =>
    rw [renderShape_eq, beneath_eq_partsBy] at h
    obtain ⟨_, _, h⟩ := Trail.ok_andThen.1 h
    refine flat_of_rule (hinline shape .refl) ?_ (fun entry hcall => hf entry (.single hcall)) h
    intro c hc hcall hint e he
    exact ih c hc (fun t ht => hinline t (.head hcall ht)) (fun t ht => hf t (.head hcall ht)) he

theorem flat_renderWithin {hops : Nat}
    (hinline : ∀ t, s.registry.Renders shape t → t.head.isInline = false)
    {hint : Option String} (h : (s.renderWithin hops shape hint).outcome = .ok e) : e.Flat := by
  induction hops generalizing shape hint e with
  | zero =>
    refine flat_renderShape hinline (fun _ _ e he => ?_) h
    cases he
  | succ hops ih =>
    refine flat_renderShape hinline (fun entry hentry e he => ?_) h
    exact ih (fun t ht => hinline t (hentry.trans ht)) he

/-- If no structure without a name is rendered, none is set out in the expression. -/
theorem flat_render (hinline : ∀ t, s.registry.Renders shape t → t.head.isInline = false)
    {hint : Option String} (h : (s.render shape hint).outcome = .ok e) : e.Flat :=
  flat_renderWithin hinline h

end Scope

/-! ## Both layouts -/

theorem Recording.on_map {α β : Type} (g : α → β) (c : Recording α) (l : Ledger) :
    (g <$> c).on l = ((c.on l).1.map g, (c.on l).2) := by
  rw [map_eq_pure_bind, on_bind]
  rcases c.on l with ⟨_ | a, l'⟩
  · rfl
  · rfl

namespace Call

theorem recording_format_shape (r : Registry) (layout : Layout) (shape : Shape)
    (hint : Option String) :
    (format r layout (.shape shape) hint).recording =
      (fun e => some (e.print layout)) <$> Recording.render r shape hint := by
  show ((Recording.render r shape hint >>= fun e => pure (e.print layout)) >>= fun text =>
    pure (some text)) = _
  rw [bind_assoc, map_eq_pure_bind]
  exact bind_congr fun e => pure_bind _ _

/-- In both layouts formatting a shape ends alike, records the same names in the same order and
gives a text of the same expression, and writing it in one pass does the same. If no structure
without a name is rendered the two texts are equal. Without cycles formatting is not endless. -/
theorem layouts_agree (r : Registry) (shape : Shape) (hint : Option String) (l : Ledger) :
    ∃ (names : List String) (outcome : Except RenderError Expr),
      (∀ layout,
        (Recording.write r layout shape hint).on l =
          (outcome.map fun e => e.print layout, l.recordAll names) ∧
        (format r layout (.shape shape) hint).outcome l =
          (outcome.map fun e => some (e.print layout)) ∧
        l.after (format r layout (.shape shape) hint) = l.recordAll names) ∧
      ((∀ t, r.Renders shape t → t.head.isInline = false) →
        ∀ e, outcome = .ok e → e.print .oneLine = e.print .multiLine) ∧
      (r.AcyclicFrom shape → outcome ≠ .error .endless) := by
  let t := Scope.render ⟨r, l.ignored⟩ shape hint
  have hrender : (Recording.render r shape hint).on l = (t.outcome, l.recordAll t.names) :=
    Recording.follows_render ⟨r, l.ignored⟩ shape hint l fun _ => Iff.rfl
  refine ⟨t.names, t.outcome, fun layout => ⟨?_, ?_, ?_⟩, fun hinline e he => ?_, fun hacyclic => ?_⟩
  · rw [Recording.write_eq, Recording.on_map, hrender]
  · rw [outcome, recording_format_shape, Recording.on_map, hrender]
  · rw [Ledger.after, recording_format_shape, Recording.on_map, hrender]
  · have hflat : e.Flat := Scope.flat_render (s := ⟨r, l.ignored⟩) hinline he
    exact hflat.print_eq .oneLine .multiLine
  · intro hendless
    exact Scope.ne_endless_render (s := ⟨r, l.ignored⟩) hacyclic hint _ hendless rfl

/-- A registry of which a pair is the one entry. -/
def pairRegistry : Registry where
  entries :=
    [(.number 0 0, .group { tag := .tuple, type := "(u32,bool)", lookupIndex := .int 0 }
      [.leaf { tag := .plain, type := "u32" }, .leaf { tag := .plain, type := "bool" }])]

/-- A structure without a name: a field, the pair of the registry under no key, and a field with a
declared name and a label. -/
def openStruct : Shape :=
  .group { tag := .struct, type := "\x7b\x7d" }
    [.leaf { tag := .plain, type := "u32", name := .str "zeta" },
     .leaf { tag := .si, type := "Lookup0", lookupIndex := .int 0 },
     .leaf { tag := .plain, type := "Text", name := .str "alpha", lookupName := .str "Bar",
             typeName := .str "Label" }]

/-- An option of the pair of the registry. -/
def optionalPair : Shape :=
  .single { tag := .option, type := "Option<Lookup0>" }
    (.leaf { tag := .si, type := "Lookup0", lookupIndex := .int 0 })

/-- The structure has two texts and leaves one ledger; the option has one text. -/
theorem layouts_agree_pairRegistry :
    (format pairRegistry .oneLine (.shape openStruct) none).outcome (.empty [] []) =
        .ok (some ("\x7b zeta: u32; unknown1: ITuple<[u32, bool]>; " ++
          "alpha: As<'Label', Bar>; \x7d & Struct")) ∧
      (format pairRegistry .multiLine (.shape openStruct) none).outcome (.empty [] []) =
        .ok (some ("\x7b\n    readonly zeta: u32;\n    readonly unknown1: ITuple<[u32, bool]>;\n" ++
          "    readonly alpha: As<'Label', Bar>;\n  \x7d & Struct")) ∧
      (Ledger.empty [] []).after (format pairRegistry .oneLine (.shape openStruct) none) =
        (Ledger.empty [] []).after (format pairRegistry .multiLine (.shape openStruct) none) ∧
      ∀ layout, (format pairRegistry layout (.shape optionalPair) none).outcome (.empty [] []) =
        .ok (some "Option<ITuple<[u32, bool]>>") := by
  have hinline : ∀ t, pairRegistry.Renders optionalPair t → t.head.isInline = false := by
    intro t ht
    rcases ht.mem_heads with hk | ⟨e, he, hk⟩
    · exact (by decide : ∀ k ∈ optionalPair.heads, k.isInline = false) _ hk
    · exact (by decide : ∀ e ∈ pairRegistry.entries, ∀ k ∈ e.2.heads, k.isInline = false) e he _ hk
  have hoption : (format pairRegistry .oneLine (.shape optionalPair) none).outcome
      (.empty [] []) = .ok (some "Option<ITuple<[u32, bool]>>") :=
    eq_ok_of_toOption (by decide +kernel)
  obtain ⟨_, _, hlayouts, -, -⟩ := layouts_agree pairRegistry openStruct none (.empty [] [])
  obtain ⟨_, outcome, hlayouts', hequal, -⟩ :=
    layouts_agree pairRegistry optionalPair none (.empty [] [])
  refine ⟨eq_ok_of_toOption (by decide +kernel), eq_ok_of_toOption (by decide +kernel), ?_, ?_⟩
  · rw [(hlayouts .oneLine).2.2, (hlayouts .multiLine).2.2]
  · -- what is printed on one line is printed on several
    rw [(hlayouts' .oneLine).2.1] at hoption
    intro layout
    rw [(hlayouts' layout).2.1]
    cases outcome with
    | error e => cases hoption
    | ok e =>
      have htexts := hequal hinline e rfl
      cases layout with
      | oneLine => exact hoption
      | multiLine =>
        show Except.ok (some (e.print .multiLine)) = _
        rw [← htexts]
        exact hoption

end Call

end ChainTypings
