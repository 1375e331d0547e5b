import ChainTypings.Proofs.Render.Formatting
import ChainTypings.Proofs.Render.Given

/-!
# How far a hint travels

A hint is handed down through options and compacts and nowhere else. If they lead to a plain type,
the hint arrives there, less one option around it for each option on the way, and gives the label
of the plain type; whatever else is to be rendered is rendered the same under every hint
(`Call.hint_arrives_or_ignored`).

That a hint is passed over is an equation of trails: a rule that does not look at its hint, and
whose part does not look at the hint it is handed, mentions the same names and ends alike
(`rule_hint_congr`), and so by induction does the shape (`renderShape_hint_congr`).
-/

namespace ChainTypings

/-! ## Chains -/

/-- Whether shapes with the tag hand their hint down. -/
def Tag.handsDown : Tag → Bool
  | option | compact => true
  | _ => false

/-- The shape is a chain of options and compacts, of the given tags from the outside in, around a
plain type, and no name under which a shape is declared cuts it off. -/
inductive Shape.Chain : List Tag → String → Shape → Prop
  | plain {shape : Shape} {type : String} : shape.head.tag = .plain → shape.head.type = type →
      shape.head.alias? = none → Chain [] type shape
  | wrap {h : Head} {c : Shape} {tag : Tag} {tags : List Tag} {type : String} : h.tag = tag →
      tag.handsDown = true → c.head.alias? = none → Chain tags type c →
      Chain (tag :: tags) type (.single h c)

/-- The text in the wrappers of a chain. -/
def enclose (tags : List Tag) (text : String) : String :=
  tags.foldr (fun tag text => tag.name ++ "<" ++ text ++ ">") text

/-! ## Hints on the way -/

namespace Label

/-- The second text is the first less one option around it, if there is one. -/
inductive Peels : String → String → Prop
  | off (inside : String) : Peels ("Option<" ++ inside ++ ">") inside
  | kept {hint : String} : (∀ inside, hint ≠ "Option<" ++ inside ++ ">") → Peels hint hint

/-- The second hint is what a shape of the tag hands down of the first: an option takes one option
off it. -/
inductive Passes : Tag → String → String → Prop
  | compact (hint : String) : Passes .compact hint hint
  | option {hint inner : String} : Peels hint inner → Passes .option hint inner

/-- The second hint is what arrives of the first at the end of a chain. -/
inductive Arrives : List Tag → String → String → Prop
  | here (hint : String) : Arrives [] hint hint
  | on {tag : Tag} {tags : List Tag} {hint inner hint' : String} : Passes tag hint inner →
      Arrives tags inner hint' → Arrives (tag :: tags) hint hint'

theorem Passes.no_line_break {tag : Tag} {hint inner : String} (h : Passes tag hint inner)
    (hline : '\n' ∉ hint.toList) : '\n' ∉ inner.toList := by
  cases h with
  | compact _ => exact hline
  | option hpeels =>
    cases hpeels with
    | off _ => simpa using hline
    | kept _ => exact hline

/-- On a single line the hint for what is inside an option is the hint less one option. -/
theorem peels_insideOption {hint : String} (hline : '\n' ∉ hint.toList) :
    Peels hint (String.ofList (insideOption hint.toList)) := by
  have kept : (∀ inside : List Char, hint.toList ≠ "Option<".toList ++ inside ++ ['>']) →
      Peels hint (String.ofList hint.toList) := by
    intro hnot
    rw [String.ofList_toList]
    refine .kept fun inside he => hnot inside.toList ?_
    rw [he, String.toList_append, String.toList_append]
    rfl
  unfold insideOption
  cases hrest : Text.after? ['O', 'p', 't', 'i', 'o', 'n', '<'] hint.toList with
  | none =>
    refine kept fun inside he => ?_
    rw [he] at hrest
    simp [Text.after?] at hrest
  | some rest =>
    have hhint := Text.after?_eq hrest
    rw [hhint, List.mem_append, not_or] at hline
    have hlast : rest.getLast? ≠ some '\n' := fun h => hline.2 (List.mem_of_getLast? h)
    have hnone : rest.contains '\n' = false := by simpa using hline.2
    simp only [if_neg hlast, hnone, Bool.not_false, Bool.and_true, decide_eq_true_eq]
    split
    · next hclosed =>
      obtain ⟨inside, rfl⟩ := List.getLast?_eq_some_iff.1 hclosed
      have hoff : hint = "Option<" ++ String.ofList inside ++ ">" := by
        rw [← String.toList_inj, hhint]
        simp
      rw [List.dropLast_concat, List.append_nil, hoff]
      exact .off _
    · next hopen =>
      refine kept fun inside he => hopen ?_
      rw [hhint] at he
      have hrest : rest = inside ++ ['>'] := by simpa using he
      rw [hrest, List.getLast?_concat]

end Label

/-! ## Hints that are passed over -/

namespace Scope

variable {s : Scope} {follow : Shape → Trail Expr}

/-- A rule does not look at its hint unless the shape is a plain type without a name, or hands the
hint down to a part that does. -/
theorem rule_hint_congr {shape : Shape} {parts : Parts}
    (hplain : shape.head.tag = .plain → shape.head.alias? ≠ none)
    (hpart : shape.head.tag.handsDown = true → ∀ p, parts = .one p → ∀ hint hint',
      argument p hint = argument p hint') (hint hint' : Option String) :
    s.rule follow shape parts hint = s.rule follow shape parts hint' := by
  have wrap : shape.head.tag.handsDown = true → ∀ w h h',
      s.wrap shape parts w h = s.wrap shape parts w h' := by
    intro hdown w h h'
    cases parts with
    | one p => simp only [Scope.wrap, hpart hdown p rfl h h']
    | _ => rfl
  cases htag : shape.head.tag with
  | option | compact =>
    simp only [rule, htag]
    exact wrap (by rw [htag]; rfl) _ _ _
  | plain =>
    obtain ⟨name, hname⟩ := Option.ne_none_iff_exists'.1 (hplain htag)
    simp only [rule, htag, aliasOr, hname]
  | _ => simp only [rule, htag]

/-- A shape that is no chain is rendered the same under every hint. -/
theorem renderShape_hint_congr {shape : Shape} (h : ∀ tags type, ¬shape.Chain tags type)
    (hint hint' : Option String) :
    s.renderShape follow shape hint = s.renderShape follow shape hint' := by
  induction shape using Shape.induction_children generalizing hint hint' with
  | step shape ih =>
    rw [renderShape_eq, renderShape_eq]
    congr 1
    funext _
    refine rule_hint_congr (fun htag halias => h _ _ (.plain htag rfl halias)) ?_ hint hint'
    intro hdown p hp hint hint'
    cases shape with
    | single k c =>
      obtain rfl : (⟨c.head, s.renderShape follow c⟩ : Part) = p := by simpa [beneath] using hp
      unfold argument
      cases halias : c.head.alias? with
      | some name => rfl
      | none =>
        -- otherwise the shape would continue the chain
        have hc : ∀ tags type, ¬c.Chain tags type :=
          fun tags type hchain => h _ _ (.wrap rfl hdown halias hchain)
        exact ih c (List.mem_singleton_self c) hc hint hint'
    | _ => cases hp

/-! ## Hints that arrive -/

theorem ok_wrap {shape : Shape} {p : Part} {wrapper : String} {hint : Option String} {e : Expr}
    (h : (s.wrap shape (.one p) wrapper hint).outcome = .ok e) :
    ∃ a, (argument p hint).outcome = .ok a ∧ e = .wrap wrapper a := by
  obtain ⟨_, _, h⟩ := Trail.ok_andThen.1 h
  obtain ⟨_, _, h⟩ := Trail.ok_andThen.1 h
  obtain ⟨a, ha, rfl⟩ := Trail.ok_map.1 h
  exact ⟨a, ha, rfl⟩

/-- A shape that hands its hint down is rendered as a wrapper around its part. -/
theorem ok_renderShape_of_handsDown {k : Head} (hdown : k.tag.handsDown = true) {c : Shape}
    (halias : c.head.alias? = none) {hint : String} (hline : '\n' ∉ hint.toList) {e : Expr}
    (h : (s.renderShape follow (.single k c) (some hint)).outcome = .ok e) :
    ∃ inner a, Label.Passes k.tag hint inner ∧
      (s.renderShape follow c (some inner)).outcome = .ok a ∧ e = .wrap k.tag.name a := by
  rw [renderShape_eq] at h
  obtain ⟨_, _, h⟩ := Trail.ok_andThen.1 h
  have argument : ∀ inner, argument ⟨c.head, s.renderShape follow c⟩ inner =
      s.renderShape follow c inner := by
    intro inner
    simp only [Scope.argument, halias]
  cases htag : k.tag with
  | compact =>
    simp only [rule, Shape.head, htag] at h
    obtain ⟨a, ha, rfl⟩ := ok_wrap h
    exact ⟨hint, a, .compact hint, argument _ ▸ ha, rfl⟩
  | option =>
    simp only [rule, Shape.head, htag] at h
    obtain ⟨a, ha, rfl⟩ := ok_wrap h
    exact ⟨_, a, .option (Label.peels_insideOption hline), argument _ ▸ ha, rfl⟩
  | _ =>
    rw [htag] at hdown
    cases hdown

/-- What a chain is rendered as: its wrappers around the plain type with the label that the hint
gives once it arrives. -/
theorem exists_arrives_of_chain {tags : List Tag} {type : String} {shape : Shape}
    (hchain : shape.Chain tags type) {hint : String} (hline : '\n' ∉ hint.toList) {e : Expr}
    (h : (s.renderShape follow shape (some hint)).outcome = .ok e) :
    ∃ hint' inner, Label.Arrives tags hint hint' ∧
      (s.named type (some hint')).outcome = .ok inner ∧
      ∀ layout, e.print layout = enclose tags (inner.print layout) := by
  induction hchain generalizing hint e with
  | plain htag htype halias =>
    subst htype
    rw [renderShape_eq] at h
    obtain ⟨_, _, h⟩ := Trail.ok_andThen.1 h
    simp only [rule, htag, aliasOr, halias] at h
    obtain ⟨_, _, h⟩ := Trail.ok_andThen.1 h
    exact ⟨hint, e, .here hint, h, fun _ => rfl⟩
  | wrap htag hdown halias _ ih =>
    subst htag
    obtain ⟨inner, a, hpasses, ha, rfl⟩ := ok_renderShape_of_handsDown hdown halias hline h
    obtain ⟨hint', b, harrives, hb, hprint⟩ := ih (hpasses.no_line_break hline) ha
    refine ⟨hint', b, .on hpasses harrives, hb, fun layout => ?_⟩
    rw [Expr.print, hprint, TypeExpr.application_one]
    rfl

end Scope

namespace Call

/-- Under a hint on a single line a chain of options and compacts around a plain type is formatted
as its wrappers around the type under what arrives of the hint. Every other shape is formatted alike
under any two hints, and leaves the ledger alike. -/
theorem hint_arrives_or_ignored (r : Registry) (layout : Layout) (l : Ledger) (shape : Shape) :
    (∀ tags type, shape.Chain tags type → ∀ hint : String, '\n' ∉ hint.toList → ∀ text,
      (format r layout (.shape shape) (some hint)).outcome l = .ok (some text) →
        ∃ hint' inner, Label.Arrives tags hint hint' ∧
          (label type (some hint')).outcome l = .ok (some inner) ∧ text = enclose tags inner) ∧
      ((∀ tags type, ¬shape.Chain tags type) → ∀ hint hint' : Option String,
        (format r layout (.shape shape) hint).outcome l =
            (format r layout (.shape shape) hint').outcome l ∧
          l.after (format r layout (.shape shape) hint) =
            l.after (format r layout (.shape shape) hint')) := by
  constructor
  · intro tags type hchain hint hline text htext
    obtain ⟨e, he, rfl⟩ := (format_eq_iff r l layout (some hint) shape text).1 htext
    rw [Scope.render_eq_followed] at he
    obtain ⟨hint', inner, harrives, hinner, hprint⟩ :=
      Scope.exists_arrives_of_chain hchain hline he
    refine ⟨hint', inner.print .multiLine, harrives, ?_, ?_⟩
    · rw [outcome_eq _ fun _ => Iff.rfl]
      exact Trail.ok_map.2 ⟨inner, hinner, rfl⟩
    · rw [hprint]
      rcases Scope.ok_named hinner with rfl | ⟨name, -, rfl⟩ <;> rfl
  · intro hchain hint hint'
    let s : Scope := ⟨r, l.ignored⟩
    have hrender : s.render shape hint = s.render shape hint' := by
      rw [Scope.render_eq_followed, Scope.render_eq_followed]
      exact Scope.renderShape_hint_congr hchain hint hint'
    have htrail : (format r layout (.shape shape) hint).trail l.ignored =
        (format r layout (.shape shape) hint').trail l.ignored := by
      show ((s.render shape hint).andThen _).andThen _ = _
      rw [hrender]
      rfl
    rw [outcome_eq _ fun _ => Iff.rfl, outcome_eq _ fun _ => Iff.rfl, Ledger.after_eq,
      Ledger.after_eq, htrail]
    exact ⟨rfl, rfl⟩

/-- An option of an option of a compact number, declared under a name. -/
def bidShape : Shape :=
  .single { tag := .option, type := "Option<Option<Compact<u128>>>", lookupName := .str "Bid" }
    (.single { tag := .option, type := "Option<Compact<u128>>" }
      (.single { tag := .compact, type := "Compact<u128>" }
        (.leaf { tag := .plain, type := "u128" })))

/-- A vector of such options. -/
def bidsShape : Shape := .single { tag := .vec, type := "Vec<Bid>" } bidShape

/-- On its own the number is labelled by what the hint says of it, in a vector the hint is lost. -/
theorem hint_arrives_bid :
    let hint := "Option<Option<BalanceOf<T>>>"
    let text := "Option<Option<Compact<As<'BalanceOf<T>', u128>>>>"
    let l := Ledger.empty [] []
    bidShape.Chain [.option, .option, .compact] "u128" ∧ '\n' ∉ hint.toList ∧
      (format {} .oneLine (.shape bidShape) (some hint)).outcome l = .ok (some text) ∧
      (∃ hint' inner, Label.Arrives [.option, .option, .compact] hint hint' ∧
        (label "u128" (some hint')).outcome l = .ok (some inner) ∧
        text = enclose [.option, .option, .compact] inner) ∧
      (∀ tags type, ¬bidsShape.Chain tags type) ∧
      (format {} .oneLine (.shape bidsShape) (some hint)).outcome l =
        (format {} .oneLine (.shape bidsShape) none).outcome l := by
  intro hint text l
  have hchain : bidShape.Chain [.option, .option, .compact] "u128" :=
    .wrap rfl rfl rfl (.wrap rfl rfl rfl (.wrap rfl rfl rfl (.plain rfl rfl rfl)))
  have hline : '\n' ∉ hint.toList := by decide
  have htext : (format {} .oneLine (.shape bidShape) (some hint)).outcome l = .ok (some text) :=
    eq_ok_of_toOption (by decide +kernel)
  have hvec : ∀ tags type, ¬bidsShape.Chain tags type := by
    intro tags type h
    cases h with
    | plain htag _ _ => cases htag
    | wrap htag hdown _ _ =>
      subst htag
      cases hdown
  have harrives :=
    (hint_arrives_or_ignored {} .oneLine l bidShape).1 _ _ hchain hint hline text htext
  have hignored := (hint_arrives_or_ignored {} .oneLine l bidsShape).2 hvec (some hint) none
  exact ⟨hchain, hline, htext, harrives, hvec, hignored.1⟩

end Call

end ChainTypings
