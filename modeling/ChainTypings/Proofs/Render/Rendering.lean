import ChainTypings.Proofs.Import.Mentioned
import ChainTypings.Proofs.Import.Recording
import ChainTypings.Proofs.Render.Parts
import ChainTypings.Render.Format

/-!
# From type texts to type expressions

What a text comes to on its way through the parser, the check of its names and the rules of the
tags, read off its expression: the names that must be known, the parts that no rule renders, and,
if there is nothing of the kind, the text that is rendered and the names it needs.

The expressions are those that render by themselves: none of their parts leads to an entry of the
registry, so whatever follows indirections is never asked.
-/

namespace ChainTypings

open Text Spelling Import

namespace TypeExpr

/-- A canonical expression without references to the registry, labels, and generic types that have
no rule. Types that are never built may hold whatever is canonical. -/
inductive Basic : TypeExpr → Prop
  | name {w : AsciiWord} : w.IsPlain → Basic (.name w)
  | unit : Basic .unit
  | tuple {es} : 2 ≤ es.length → (∀ e ∈ es, Basic e) → Basic (.tuple es)
  | array {e} (n) : Basic e → Basic (.array e n)
  | slice {e} : e ≠ .name .u8 → Basic e → Basic (.slice e)
  | wrapper {w e} : (w = .vec → e ≠ .name .u8) → Basic e → Basic (.wrapper w e)
  | pair {a b} (p) : Basic a → Basic b → Basic (.pair p a b)
  | number (s n) : Basic (.number s n)
  | doNotConstruct {es} : (∀ e ∈ es, Canonical e) → Basic (.doNotConstruct es)

theorem Basic.canonical {e : TypeExpr} (h : e.Basic) : e.Canonical := by
  induction h with
  | name hw => exact .name hw
  | unit => exact .unit
  | tuple hn _ ih => exact .tuple hn ih
  | array n _ ih => exact .array n ih
  | slice hb _ ih => exact .slice hb ih
  | wrapper hb _ ih => exact .wrapper hb ih
  | pair p _ _ iha ihb => exact .pair p iha ihb
  | number s n => exact .number s n
  | doNotConstruct hes => exact .doNotConstruct hes

/-- Whether the expression is the name of a byte. -/
def isByte : TypeExpr → Bool
  | name w => w = .u8
  | _ => false

/-! ## What an expression comes to -/

mutual

/-- The names that must be known, leftmost first. -/
def words : TypeExpr → List String
  | name w => [w.toString]
  | tuple es => wordsEach es
  | array e _ => words e
  | slice e => words e
  | wrapper _ e => words e
  | pair _ a b => words a ++ words b
  | _ => []

/-- The names of several expressions that must be known. -/
def wordsEach : List TypeExpr → List String
  | [] => []
  | e :: es => words e ++ wordsEach es

end

mutual

/-- The outermost parts that no rule renders, leftmost first: ranges and numbers. -/
def unruled : TypeExpr → List TypeExpr
  | tuple es => unruledEach es
  | array e _ => unruled e
  | slice e => unruled e
  | wrapper w e => if w.tag = .range then [.wrapper w e] else unruled e
  | pair _ a b => unruled a ++ unruled b
  | number s n => [.number s n]
  | _ => []

/-- The outermost parts of several expressions that no rule renders. -/
def unruledEach : List TypeExpr → List TypeExpr
  | [] => []
  | e :: es => unruled e ++ unruledEach es

end

mutual

/-- What an expression is rendered as. Parts without a rule keep their text. -/
def rendering : TypeExpr → Expr
  | name w => .name w.toString
  | unit => .name "Null"
  | tuple es => .tuple (renderingEach es)
  | array e _ => if e.isByte then .name "U8aFixed" else .wrap "Vec" (rendering e)
  | slice e => .wrap "Vec" (rendering e)
  | wrapper w e => .wrap w.tag.name (rendering e)
  | pair p a b => .wrapTwo p.tag.name (rendering a) (rendering b)
  | doNotConstruct _ => .name "DoNotConstruct"
  | e => .name e.text

/-- What several expressions are rendered as. -/
def renderingEach : List TypeExpr → List Expr
  | [] => []
  | e :: es => rendering e :: renderingEach es

end

mutual

/-- The names that a rendering mentions, in order: at each part those of its type text, and what
its rule needs. -/
def recorded : TypeExpr → List String
  | name w => [w.toString, w.toString]
  | unit => ["Null", "Null"]
  | tuple es => mentioned (tuple es) ++ "ITuple" :: recordedEach es
  | array e n =>
    mentioned (array e n) ++ if e.isByte then ["U8aFixed"] else "Vec" :: recorded e
  | slice e => mentioned (slice e) ++ "Vec" :: recorded e
  | wrapper w e => mentioned (wrapper w e) ++ w.tag.name :: recorded e
  | pair p a b => mentioned (pair p a b) ++ p.tag.name :: (recorded a ++ recorded b)
  | doNotConstruct es => mentioned (doNotConstruct es) ++ ["DoNotConstruct"]
  | e => mentioned e

/-- The names that the renderings of several expressions mention, in order. -/
def recordedEach : List TypeExpr → List String
  | [] => []
  | e :: es => recorded e ++ recordedEach es

end

theorem wordsEach_eq_flatMap (es : List TypeExpr) : wordsEach es = es.flatMap words := by
  induction es with
  | nil => rfl
  | cons e es ih => rw [wordsEach, ih, List.flatMap_cons]

theorem unruledEach_eq_flatMap (es : List TypeExpr) : unruledEach es = es.flatMap unruled := by
  induction es with
  | nil => rfl
  | cons e es ih => rw [unruledEach, ih, List.flatMap_cons]

theorem renderingEach_eq_map (es : List TypeExpr) : renderingEach es = es.map rendering := by
  induction es with
  | nil => rfl
  | cons e es ih => rw [renderingEach, ih, List.map_cons]

theorem recordedEach_eq_flatMap (es : List TypeExpr) : recordedEach es = es.flatMap recorded := by
  induction es with
  | nil => rfl
  | cons e es ih => rw [recordedEach, ih, List.flatMap_cons]

/-! ## The check of the names -/

theorem unknownNamesList_eq_flatMap (r : Registry) (ss : List Shape) :
    r.unknownNamesList ss = ss.flatMap r.unknownNames := by
  induction ss with
  | nil => rfl
  | cons s ss ih => rw [Registry.unknownNamesList, ih, List.flatMap_cons]

theorem unknownHead_eq_nil (r : Registry) {h : Head} (ht : h.tag ≠ .plain) :
    r.unknownHead h = [] := by
  rw [Registry.unknownHead, if_neg fun hc => ht hc.1]

/-- The plain types of the shape that cannot be resolved are the unknown names. -/
theorem unknownNames_shape (r : Registry) {e : TypeExpr} (h : e.Basic) :
    r.unknownNames e.shape = e.words.filter fun n => !r.isKnown n := by
  induction h with
  | @name w _ =>
    show (if Tag.plain = .plain ∧ r.isKnown w.toString = false then [w.toString] else []) =
      [w.toString].filter fun n => !r.isKnown n
    by_cases hk : r.isKnown w.toString = true
    · simp [hk]
    · simp [hk]
  | unit => rfl
  | @tuple es _ _ ih =>
    have hlist : r.unknownNamesList (shapeEach es) =
        (wordsEach es).filter fun n => !r.isKnown n := by
      rw [unknownNamesList_eq_flatMap, shapeEach_eq_map, wordsEach_eq_flatMap, List.flatMap_map,
        List.filter_flatMap]
      exact List.flatMap_congr ih
    simp [shape, words, Registry.unknownNames, unknownHead_eq_nil, hlist]
  | array n _ ih => simp [shape, words, Registry.unknownNames, unknownHead_eq_nil, ih]
  | slice _ _ ih => simp [shape, words, Registry.unknownNames, unknownHead_eq_nil, ih]
  | @wrapper w e _ _ ih =>
    have hplain : w.tag ≠ .plain := by cases w <;> decide
    have hset : w.tag ≠ .set := by cases w <;> decide
    simp [shape, words, Registry.unknownNames, unknownHead_eq_nil, hplain, hset, ih]
  | pair p _ _ iha ihb =>
    have hplain : p.tag ≠ .plain := by cases p <;> decide
    have hset : p.tag ≠ .set := by cases p <;> decide
    simp [shape, words, Registry.unknownNames, Registry.unknownNamesList, unknownHead_eq_nil,
      hplain, hset, iha, ihb]
  | number s n =>
    have hplain : numberTag s ≠ .plain := by cases s <;> decide
    simp [shape, words, Registry.unknownNames, unknownHead_eq_nil, hplain]
  | doNotConstruct _ => simp [shape, words, Registry.unknownNames, unknownHead_eq_nil]

/-- The text of an expression is resolved unless a name is unknown; the leftmost one is told. -/
theorem resolve_text (r : Registry) {e : TypeExpr} (h : e.Basic) :
    r.resolve e.text =
      match e.words.find? fun n => !r.isKnown n with
      | none => .ok e.shape
      | some n => .error (.unknownType n) := by
  rw [Registry.resolve, text, String.toList_ofList, h.canonical.parse_print]
  simp only [unknownNames_shape r h]
  rw [← List.head?_filter]
  cases e.words.filter fun n => !r.isKnown n <;> rfl

/-! ## The rules of the tags -/

theorem alias?_shape (e : TypeExpr) : e.shape.head.alias? = none := by
  cases e <;> rfl

theorem hint?_shape {e : TypeExpr} (h : e.Basic) : e.shape.head.hint? = none := by
  cases h <;> rfl

/-- Only the name of a byte has the type text of a byte. -/
theorem type_shape_eq_u8 {e : TypeExpr} : e.shape.head.type = "u8" ↔ e.isByte = true := by
  constructor
  · intro h
    have htext : e.text = "u8" ∨ e = unit := by
      cases e with
      | unit => exact .inr rfl
      | _ => exact .inl h
    rcases htext with ht | rfl
    · have hprint : e.print ++ [','] = ['u', '8'] ++ [','] := by
        have := congrArg String.toList ht
        rw [text, String.toList_ofList] at this
        rw [this]
        rfl
      have hbyte := (Phrase.isByte_of_print rfl rfl hprint).1
      rw [eq_of_isByte_phrase hbyte]
      rfl
    · exact absurd h (by decide)
  · intro h
    cases e with
    | name w =>
      rw [isByte, decide_eq_true_eq] at h
      rw [h]
      rfl
    | _ => exact Bool.noConfusion h

section

variable {s : Scope}

theorem mention_tag (t : Tag) : s.mention t.name = .noting s.ignored [t.name] () :=
  mentionsOf_word _ t.word.ne_nil t.word.isWordChar

theorem mention_shape {e : TypeExpr} (h : e.Canonical) (hi : ∀ n ∈ s.ignored, IsWord n) :
    s.mention e.shape.head.reference = .noting s.ignored e.mentioned () := by
  rw [Head.reference, alias?_shape]
  exact mentions_type h hi

theorem mentionAliases_eq {ps : List Part} (h : ∀ p ∈ ps, p.head.alias? = none) :
    s.mentionAliases ps = .noting s.ignored [] () := by
  have hnone : ps.filterMap (fun p => p.head.alias?) = [] :=
    List.filterMap_eq_nil_iff.2 h
  rw [Scope.mentionAliases, hnone]
  rfl

variable {p q : Part} {hint : Option String} {es fs : List RenderError} {ns ms : List String}
  {x y : Expr}

theorem ends_argument (ha : p.head.alias? = none)
    (h : Trail.Ends s.ignored (p.render hint) es ns x) :
    Trail.Ends s.ignored (Scope.argument p hint) es ns x := by
  rwa [Scope.argument, ha]

theorem ends_wrap (t : Tag) (shape : Shape) (ha : p.head.alias? = none)
    (h : Trail.Ends s.ignored (p.render hint) es ns x) :
    Trail.Ends s.ignored (s.wrap shape (.one p) t.name hint) es (t.name :: ns)
      (.wrap t.name x) := by
  have haliases : s.mentionAliases [p] = .noting s.ignored [] () :=
    mentionAliases_eq (by simpa using ha)
  have hmention : Trail.Ends s.ignored (s.mention t.name) [] [t.name] () := mention_tag t
  have hnone : Trail.Ends s.ignored (s.mentionAliases [p]) [] [] () := haliases
  exact hmention.andThen (hnone.andThen ((ends_argument ha h).map (Expr.wrap t.name)))

theorem ends_wrapTwo (t : Tag) (shape : Shape) (ha : p.head.alias? = none)
    (hb : q.head.alias? = none) (h : Trail.Ends s.ignored (p.render none) es ns x)
    (h' : Trail.Ends s.ignored (q.render none) fs ms y) :
    Trail.Ends s.ignored (s.wrapTwo shape (.many [p, q]) t.name) (es ++ fs)
      (t.name :: (ns ++ ms)) (.wrapTwo t.name x y) := by
  have haliases : s.mentionAliases [p, q] = .noting s.ignored [] () :=
    mentionAliases_eq (by simpa using ⟨ha, hb⟩)
  have hmention : Trail.Ends s.ignored (s.mention t.name) [] [t.name] () := mention_tag t
  have hnone : Trail.Ends s.ignored (s.mentionAliases [p, q]) [] [] () := haliases
  have hsecond := (ends_argument hb h').map (Expr.wrapTwo t.name x)
  have hboth := (ends_argument ha h).andThen (f := fun a =>
    (Scope.argument q none).andThen fun b => Trail.done (Expr.wrapTwo t.name a b)) hsecond
  exact hmention.andThen (hnone.andThen hboth)

/-- The shape of an expression, ready to be rendered. -/
def part (s : Scope) (follow : Shape → Trail Expr) (e : TypeExpr) : Part :=
  ⟨e.shape.head, s.renderShape follow e.shape⟩

theorem renderParts_shapeEach (s : Scope) (follow : Shape → Trail Expr) (es : List TypeExpr) :
    s.renderParts follow (shapeEach es) = es.map (part s follow) := by
  rw [Scope.renderParts_eq_map, shapeEach_eq_map, List.map_map]
  rfl

theorem rule_tuple (follow : Shape → Trail Expr) (type : String) (cs : List Shape)
    (ps : List Part) (hint : Option String) :
    s.rule follow (.group { tag := .tuple, type } cs) (.many ps) hint =
      (s.mention "ITuple").andThen fun _ => (s.mentionAliases ps).andThen fun _ =>
        (Trail.mapEach s.renderMember ps).andThen fun xs => Trail.done (Expr.tuple xs) :=
  rfl

/-- Every wrapper around one type but a range is rendered by its name. -/
theorem rule_wrapper {w : Wrapper} (hw : w.tag ≠ .range) (follow : Shape → Trail Expr)
    (e : TypeExpr) (ps : Parts) :
    s.rule follow (wrapper w e).shape ps none =
      s.wrap (wrapper w e).shape ps w.tag.name none := by
  cases w with
  | range => exact absurd rfl hw
  | rangeInclusive => exact absurd rfl hw
  | _ => rfl

theorem rule_pair (p : Pairing) (follow : Shape → Trail Expr) (a b : TypeExpr) (ps : Parts) :
    s.rule follow (pair p a b).shape ps none =
      s.wrapTwo (pair p a b).shape ps p.tag.name := by
  cases p <;> rfl

/-- The fault of a part that no rule renders. -/
def fault (e : TypeExpr) : RenderError := .unsupported e.shape .noRule

/-- What the rule of its tag makes of an expression if its children render as they are meant to. -/
theorem ends_tuple {es : List TypeExpr} (h : ∀ e ∈ es, e.Basic) (follow : Shape → Trail Expr)
    (ih : ∀ e ∈ es, Trail.Ends s.ignored (s.renderShape follow e.shape none)
      (e.unruled.map fault) e.recorded e.rendering) :
    Trail.Ends s.ignored
      (s.rule follow (tuple es).shape (.many (s.renderParts follow (shapeEach es))) none)
      ((tuple es).unruled.map fault) ("ITuple" :: recordedEach es) (tuple es).rendering := by
  have hword : Trail.Ends s.ignored (s.mention "ITuple") [] ["ITuple"] () :=
    mentionsOf_word _ (by decide) (isWord_of_all rfl)
  have haliases : Trail.Ends s.ignored (s.mentionAliases (es.map (part s follow))) [] [] () :=
    mentionAliases_eq (by simpa [part] using fun e _ => alias?_shape e)
  have hmember : ∀ e ∈ es, Trail.Ends s.ignored (s.renderMember (part s follow e))
      (e.unruled.map fault) e.recorded e.rendering := by
    intro e he
    rw [Scope.renderMember, part, alias?_shape e, hint?_shape (h e he)]
    exact ih e he
  have hmembers := Trail.Ends.mapEach (f := s.renderMember ∘ part s follow) hmember
  rw [← Trail.mapEach_map] at hmembers
  rw [shape, rule_tuple, renderParts_shapeEach, unruled, rendering, unruledEach_eq_flatMap,
    recordedEach_eq_flatMap, renderingEach_eq_map, List.map_flatMap]
  exact hword.andThen (haliases.andThen (hmembers.map Expr.tuple))

theorem ends_array {e : TypeExpr} (n : Numeral) (follow : Shape → Trail Expr)
    (ih : Trail.Ends s.ignored (s.renderShape follow e.shape none) (e.unruled.map fault)
      e.recorded e.rendering) :
    Trail.Ends s.ignored
      (s.rule follow (array e n).shape (.one ⟨e.shape.head, s.renderShape follow e.shape⟩) none)
      ((array e n).unruled.map fault) (if e.isByte then ["U8aFixed"] else "Vec" :: e.recorded)
      (array e n).rendering := by
  have hword : Trail.Ends s.ignored (s.mention "U8aFixed") [] ["U8aFixed"] () :=
    mentionsOf_word _ (by decide) (isWord_of_all rfl)
  have hbytes := hword.map fun _ => Expr.name "U8aFixed"
  have hvec := ends_wrap .vec (array e n).shape (p := ⟨e.shape.head, s.renderShape follow e.shape⟩)
    (alias?_shape e) ih
  show Trail.Ends s.ignored (if e.shape.head.type = "u8" then _ else _) _ _ _
  by_cases hb : e.isByte = true
  · have hruled : (array e n).unruled = [] := by
      cases e with
      | name w => rfl
      | _ => exact Bool.noConfusion hb
    rw [if_pos (type_shape_eq_u8.2 hb), hruled, rendering, if_pos hb, if_pos hb]
    exact hbytes
  · rw [if_neg fun h => hb (type_shape_eq_u8.1 h), rendering, if_neg hb, if_neg hb]
    exact hvec

theorem ends_wrapper {e : TypeExpr} (w : Wrapper) (follow : Shape → Trail Expr)
    (ih : Trail.Ends s.ignored (s.renderShape follow e.shape none) (e.unruled.map fault)
      e.recorded e.rendering) :
    Trail.Ends s.ignored
      (s.rule follow (wrapper w e).shape (.one ⟨e.shape.head, s.renderShape follow e.shape⟩) none)
      ((wrapper w e).unruled.map fault) (w.tag.name :: e.recorded) (wrapper w e).rendering := by
  by_cases hw : w.tag = .range
  · have hrule : s.rule follow (wrapper w e).shape
        (.one ⟨e.shape.head, s.renderShape follow e.shape⟩) none = .fail (fault (wrapper w e)) := by
      cases w with
      | range => rfl
      | rangeInclusive => rfl
      | _ => exact absurd hw (by decide)
    rw [hrule, unruled, if_pos hw]
    exact .fail _
  · rw [rule_wrapper hw, unruled, if_neg hw]
    exact ends_wrap w.tag (wrapper w e).shape (alias?_shape e) ih

theorem ends_pair {a b : TypeExpr} (p : Pairing) (follow : Shape → Trail Expr)
    (iha : Trail.Ends s.ignored (s.renderShape follow a.shape none) (a.unruled.map fault)
      a.recorded a.rendering)
    (ihb : Trail.Ends s.ignored (s.renderShape follow b.shape none) (b.unruled.map fault)
      b.recorded b.rendering) :
    Trail.Ends s.ignored
      (s.rule follow (pair p a b).shape (.many (s.renderParts follow [a.shape, b.shape])) none)
      ((pair p a b).unruled.map fault) (p.tag.name :: (a.recorded ++ b.recorded))
      (pair p a b).rendering := by
  rw [unruled, List.map_append, rule_pair]
  exact ends_wrapTwo p.tag (pair p a b).shape (alias?_shape a) (alias?_shape b) iha ihb

/-- The shape of an expression renders as it is meant to. -/
theorem ends_renderShape {e : TypeExpr} (h : e.Basic) (hi : ∀ n ∈ s.ignored, IsWord n)
    (follow : Shape → Trail Expr) :
    Trail.Ends s.ignored (s.renderShape follow e.shape none) (e.unruled.map fault) e.recorded
      e.rendering := by
  have mention : ∀ {e : TypeExpr}, e.Basic →
      Trail.Ends s.ignored (s.mention e.shape.head.reference) [] e.mentioned () :=
    fun he => mention_shape he.canonical hi
  induction h with
  | @name w hw =>
    have hrule : Trail.Ends s.ignored (s.mention w.toString) [] [w.toString] () :=
      mentionsOf_word _ (by simpa using w.ne_nil) (by simpa [IsWord] using w.isWordChar)
    exact (mention (.name hw)).andThen (hrule.map fun _ => Expr.name w.toString)
  | unit =>
    have hrule : Trail.Ends s.ignored (s.mention "Null") [] ["Null"] () := mention_tag .null
    exact (mention .unit).andThen (hrule.map fun _ => Expr.name "Null")
  | tuple hn hes ih => exact (mention (.tuple hn hes)).andThen (ends_tuple hes follow ih)
  | array n he ih => exact (mention (.array n he)).andThen (ends_array n follow ih)
  | @slice e hb he ih =>
    exact (mention (.slice hb he)).andThen (ends_wrap .vec (slice e).shape (alias?_shape e) ih)
  | wrapper hb he ih => exact (mention (.wrapper hb he)).andThen (ends_wrapper _ follow ih)
  | pair p ha hb iha ihb => exact (mention (.pair p ha hb)).andThen (ends_pair p follow iha ihb)
  | number b n =>
    have hrule : Trail.Ends s.ignored (s.rule follow (number b n).shape .none none)
        [fault (number b n)] [] (number b n).rendering := by
      cases b <;> exact .fail _
    exact (mention (.number b n)).andThen hrule
  | doNotConstruct hes =>
    have hrule : Trail.Ends s.ignored (s.mention "DoNotConstruct") [] ["DoNotConstruct"] () :=
      mention_tag .doNotConstruct
    exact (mention (.doNotConstruct hes)).andThen (hrule.map fun _ => Expr.name "DoNotConstruct")

end

end TypeExpr

end ChainTypings
