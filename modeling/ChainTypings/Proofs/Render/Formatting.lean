import ChainTypings.Proofs.Render.Rendering

/-!
# Formatting type texts

The end of the way from a type text to a text of the target language. A text whose expression has
an unknown name is refused before anything is recorded; one that has a part without a rule is
refused while it is rendered; every other text is rendered part by part, and the ledger then holds
the names that the text and its rendering need, less the ignored ones.
-/

namespace ChainTypings.TypeExpr

open Text Spelling Import

/-! ## The text of a rendering -/

mutual

/-- The text that an expression is rendered as. Parts without a rule keep theirs. -/
def rendered : TypeExpr → String
  | name w => w.toString
  | unit => "Null"
  | tuple es => "ITuple<[" ++ String.intercalate ", " (renderedEach es) ++ "]>"
  | array e _ => if e.isByte then "U8aFixed" else "Vec<" ++ rendered e ++ ">"
  | slice e => "Vec<" ++ rendered e ++ ">"
  | wrapper w e => w.tag.name ++ "<" ++ rendered e ++ ">"
  | pair p a b => p.tag.name ++ "<" ++ rendered a ++ ", " ++ rendered b ++ ">"
  | doNotConstruct _ => "DoNotConstruct"
  | e => e.text

/-- The texts that several expressions are rendered as. -/
def renderedEach : List TypeExpr → List String
  | [] => []
  | e :: es => rendered e :: renderedEach es

end

theorem renderedEach_eq_map (es : List TypeExpr) : renderedEach es = es.map rendered := by
  induction es with
  | nil => rfl
  | cons e es ih => rw [renderedEach, ih, List.map_cons]

theorem printEach_eq_map (layout : Layout) (xs : List Expr) :
    Expr.printEach layout xs = xs.map (Expr.print layout) := by
  induction xs with
  | nil => rfl
  | cons x xs ih => rw [Expr.printEach, ih, List.map_cons]

theorem application_one (wrapper a : String) :
    Expr.application wrapper [a] = wrapper ++ "<" ++ a ++ ">" := by
  simp [Expr.application]

theorem application_two (wrapper a b : String) :
    Expr.application wrapper [a, b] = wrapper ++ "<" ++ a ++ ", " ++ b ++ ">" := by
  simp [Expr.application, String.intercalate_cons_cons, String.append_assoc]

/-- No rendering is set out over several lines, so both layouts print the same text. -/
theorem print_rendering {e : TypeExpr} (h : e.Basic) (layout : Layout) :
    e.rendering.print layout = e.rendered := by
  have vec : ∀ a : String, "Vec" ++ "<" ++ a ++ ">" = "Vec<" ++ a ++ ">" := fun _ => rfl
  induction h with
  | name _ => rfl
  | unit => rfl
  | @tuple es _ _ ih =>
    have htexts : (es.map rendering).map (Expr.print layout) = es.map rendered := by
      rw [List.map_map]
      exact List.map_congr_left ih
    rw [rendering, Expr.print, printEach_eq_map, renderingEach_eq_map, htexts, rendered,
      renderedEach_eq_map, application_one]
    have hopen : "ITuple" ++ "<" ++ "[" = "ITuple<[" := rfl
    have hclose : "]" ++ ">" = "]>" := rfl
    rw [← String.append_assoc, ← String.append_assoc, hopen, String.append_assoc, hclose]
  | @array e n _ ih =>
    rw [rendering, rendered]
    split
    · rfl
    · rw [Expr.print, application_one, ih, vec]
  | slice _ _ ih => rw [rendering, Expr.print, application_one, ih, rendered, vec]
  | wrapper _ _ ih => rw [rendering, Expr.print, application_one, ih, rendered]
  | pair p _ _ iha ihb => rw [rendering, Expr.print, application_two, iha, ihb, rendered]
  | number s n => rfl
  | doNotConstruct _ => rfl

/-! ## The names of a rendering -/

mutual

/-- The names that the text of an expression and its rendering need, those of each part with it. -/
def needed : TypeExpr → List String
  | name w => [w.toString]
  | unit => ["Null"]
  | tuple es => "Tuple" :: "ITuple" :: neededEach es
  | array e _ => "VecFixed" :: if e.isByte then ["u8", "U8aFixed"] else "Vec" :: needed e
  | slice e => "Vec" :: needed e
  | wrapper w e => w.tag.name :: needed e
  | pair p a b => p.tag.name :: (needed a ++ needed b)
  | doNotConstruct _ => ["DoNotConstruct"]
  | e => mentioned e

/-- The names that several expressions and their renderings need. -/
def neededEach : List TypeExpr → List String
  | [] => []
  | e :: es => needed e ++ neededEach es

end

theorem neededEach_eq_flatMap (es : List TypeExpr) : neededEach es = es.flatMap needed := by
  induction es with
  | nil => rfl
  | cons e es ih => rw [neededEach, ih, List.flatMap_cons]

/-- The names that the text of an expression mentions are needed. -/
theorem mem_needed_of_mem_mentioned {e : TypeExpr} (h : e.Basic) {n : String}
    (hn : n ∈ e.mentioned) : n ∈ e.needed := by
  induction h with
  | name _ => exact hn
  | unit => exact hn
  | @tuple es _ _ ih =>
    rw [mentioned, mentionedEach_eq_flatMap, List.mem_cons, List.mem_flatMap] at hn
    rw [needed, neededEach_eq_flatMap, List.mem_cons, List.mem_cons, List.mem_flatMap]
    rcases hn with rfl | ⟨e, he, hn⟩
    · exact .inl rfl
    · exact .inr (.inr ⟨e, he, ih e he hn⟩)
  | @array e n _ ih =>
    rw [mentioned, List.mem_cons] at hn
    rw [needed, List.mem_cons]
    refine hn.imp_right ?_
    intro hn
    by_cases hb : e.isByte = true
    · rw [if_pos hb]
      cases e with
      | name w =>
        rw [isByte, decide_eq_true_eq] at hb
        subst hb
        exact List.mem_cons.2 (.inl (List.mem_singleton.1 hn))
      | _ => exact Bool.noConfusion hb
    · rw [if_neg hb]
      exact List.mem_cons_of_mem _ (ih hn)
  | slice _ _ ih => exact List.mem_cons.2 ((List.mem_cons.1 hn).imp_right ih)
  | wrapper _ _ ih => exact List.mem_cons.2 ((List.mem_cons.1 hn).imp_right ih)
  | pair p _ _ iha ihb =>
    rw [mentioned, List.mem_cons, List.mem_append] at hn
    rw [needed, List.mem_cons, List.mem_append]
    exact hn.imp_right fun hn => hn.imp iha ihb
  | number s k => exact hn
  | doNotConstruct _ => exact hn

/-- A rendering mentions the names that are needed and no others. -/
theorem mem_recorded {e : TypeExpr} (h : e.Basic) {n : String} :
    n ∈ e.recorded ↔ n ∈ e.needed := by
  -- The names of the type text are needed anyway, so only what the rule adds is to be compared.
  have himp : ∀ {e : TypeExpr}, e.Basic → n ∈ e.mentioned → n ∈ e.needed :=
    fun he hn => mem_needed_of_mem_mentioned he hn
  induction h with
  | name _ => simp [recorded, needed]
  | unit => simp [recorded, needed]
  | @tuple es hn hes ih =>
    have heach : n ∈ "ITuple" :: recordedEach es ↔ n ∈ "ITuple" :: neededEach es := by
      rw [recordedEach_eq_flatMap, neededEach_eq_flatMap, List.mem_cons, List.mem_cons,
        List.mem_flatMap, List.mem_flatMap]
      exact or_congr_right (exists_congr fun e => and_congr_right fun he => ih e he)
    rw [recorded, List.mem_append, heach]
    constructor
    · rintro (hm | hm)
      · exact himp (.tuple hn hes) hm
      · exact List.mem_cons_of_mem _ hm
    · intro hm
      rcases List.mem_cons.1 hm with rfl | hm
      · exact .inl List.mem_cons_self
      · exact .inr hm
  | @array e k he ih =>
    have hmentioned := himp (.array k he)
    rw [recorded, List.mem_append]
    by_cases hb : e.isByte = true
    · have hbyte : e = .name .u8 := by
        cases e with
        | name w => rw [of_decide_eq_true (p := w = .u8) hb]
        | _ => exact Bool.noConfusion hb
      subst hbyte
      have hnames : n ∈ (array (name .u8) k).mentioned ↔ n ∈ ["VecFixed", "u8"] := Iff.rfl
      have hneeded : n ∈ (array (name .u8) k).needed ↔ n ∈ ["VecFixed", "u8", "U8aFixed"] := Iff.rfl
      rw [if_pos hb, hnames, hneeded]
      simp [or_assoc]
    · have hrule : n ∈ "Vec" :: e.recorded ↔ n ∈ "Vec" :: e.needed := by
        rw [List.mem_cons, List.mem_cons]
        exact or_congr_right ih
      rw [needed, if_neg hb] at hmentioned ⊢
      rw [if_neg hb, hrule, List.mem_cons (b := "VecFixed")]
      constructor
      · rintro (hm | hm)
        · exact List.mem_cons.1 (hmentioned hm)
        · exact .inr hm
      · rintro (rfl | hm)
        · exact .inl List.mem_cons_self
        · exact .inr hm
  | @slice e hb he ih =>
    have hrule : n ∈ "Vec" :: e.recorded ↔ n ∈ (slice e).needed := by
      rw [needed, List.mem_cons, List.mem_cons]
      exact or_congr_right ih
    rw [recorded, List.mem_append, hrule]
    exact or_iff_right_of_imp (himp (.slice hb he))
  | @wrapper w e hb he ih =>
    have hrule : n ∈ w.tag.name :: e.recorded ↔ n ∈ (wrapper w e).needed := by
      rw [needed, List.mem_cons, List.mem_cons]
      exact or_congr_right ih
    rw [recorded, List.mem_append, hrule]
    exact or_iff_right_of_imp (himp (.wrapper hb he))
  | @pair a b p ha hb iha ihb =>
    have hrule : n ∈ p.tag.name :: (a.recorded ++ b.recorded) ↔ n ∈ (pair p a b).needed := by
      rw [needed, List.mem_cons, List.mem_cons, List.mem_append, List.mem_append]
      exact or_congr_right (or_congr iha ihb)
    rw [recorded, List.mem_append, hrule]
    exact or_iff_right_of_imp (himp (.pair p ha hb))
  | number s k => exact Iff.rfl
  | doNotConstruct _ => simp [recorded, needed, mentioned]

/-! ## Formatting -/

theorem exists_render_eq (s : Scope) (shape : Shape) (hint : Option String) :
    ∃ follow, s.render shape hint = s.renderShape follow shape hint := by
  unfold Scope.render
  cases s.registry.entries.length with
  | zero => exact ⟨_, rfl⟩
  | succ hops => exact ⟨_, rfl⟩

/-- A text without unknown names is formatted as it is meant to be. -/
theorem ends_format {e : TypeExpr} (h : e.Basic) {s : Scope} (hi : ∀ n ∈ s.ignored, IsWord n)
    (hk : (e.words.find? fun n => !s.registry.isKnown n) = none) :
    Trail.Ends s.ignored (s.format .multiLine (.text e.text) none) (e.unruled.map fault)
      e.recorded e.rendered := by
  obtain ⟨follow, hfollow⟩ := exists_render_eq s e.shape none
  have hresolve : s.registry.resolve e.text = .ok e.shape := by
    rw [resolve_text s.registry h, hk]
  have hexpression : s.expression .multiLine (.text e.text) none =
      s.renderShape follow e.shape none := by
    rw [← hfollow, Scope.expression, if_neg fun hc => absurd hc.1 (by decide), hresolve]
  have hends := (ends_renderShape h hi follow).map (Expr.print .multiLine)
  rw [print_rendering h, ← hexpression] at hends
  exact hends

/-- What formatting the text of an expression comes to, with a registry and a ledger. -/
structure FormatsTo (e : TypeExpr) (r : Registry) (l : Ledger) (t : Trail String) : Prop where
  /-- The leftmost unknown name is refused, and the ledger stays as it is. -/
  unknown : ∀ n, (e.words.find? fun n => !r.isKnown n) = some n →
    t.outcome = .error (.unknownType n) ∧ l.recordAll t.names = l
  /-- Where all names are known, the leftmost part without a rule is refused. -/
  unruled : (∀ n ∈ e.words, r.isKnown n = true) → ∀ u, e.unruled.head? = some u →
    t.outcome = .error (.unsupported u.shape .noRule)
  /-- Where all names are known and all parts have a rule, the expression is rendered. -/
  rendered : (∀ n ∈ e.words, r.isKnown n = true) → e.unruled = [] → t.outcome = .ok e.rendered
  /-- The ledger then holds, beside what it held, the names that are needed and not ignored. -/
  recorded : (∀ n ∈ e.words, r.isKnown n = true) → e.unruled = [] → ∀ b n,
    n ∈ (l.recordAll t.names).names b ↔
      n ∈ l.names b ∨
        (n ∈ e.needed ∧ n ∉ l.ignored) ∧ Ledger.bucketOf? l.definitions n = some b

theorem formatsTo_of_hasBuckets {e : TypeExpr} (h : e.Basic) (r : Registry) {l : Ledger}
    (hl : l.HasBuckets) (hi : ∀ n ∈ l.ignored, IsWord n) :
    FormatsTo e r l (Scope.format ⟨r, l.ignored⟩ .multiLine (.text e.text) none) := by
  have hfind : (∀ n ∈ e.words, r.isKnown n = true) →
      (e.words.find? fun n => !r.isKnown n) = none := by
    intro hk
    rw [List.find?_eq_none]
    intro n hn
    simp [hk n hn]
  have hends := fun hk => ends_format h (s := ⟨r, l.ignored⟩) hi (hfind hk)
  constructor
  case unknown =>
    intro n hn
    have hresolve : r.resolve e.text = .error (.unknownType n) := by
      rw [resolve_text r h, hn]
    have hformat : Scope.format ⟨r, l.ignored⟩ .multiLine (.text e.text) none =
        .fail (.unknownType n) := by
      rw [Scope.format, Scope.expression, if_neg fun hc => absurd hc.1 (by decide), hresolve]
      rfl
    rw [hformat]
    exact ⟨rfl, rfl⟩
  case unruled =>
    intro hk u hu
    obtain ⟨us, hus⟩ := List.head?_eq_some_iff.1 hu
    have hfault := hends hk
    rw [hus] at hfault
    exact hfault
  case rendered =>
    intro hk hu
    have hdone := hends hk
    rw [hu] at hdone
    have hdone : Scope.format ⟨r, l.ignored⟩ .multiLine (.text e.text) none =
        .noting l.ignored e.recorded e.rendered := hdone
    rw [hdone]
    rfl
  case recorded =>
    intro hk hu b n
    have hdone := hends hk
    rw [hu] at hdone
    have hdone : Scope.format ⟨r, l.ignored⟩ .multiLine (.text e.text) none =
        .noting l.ignored e.recorded e.rendered := hdone
    rw [hdone, Ledger.mem_names_recordAll hl, Trail.mem_noting, mem_recorded h]

/-- Formatting a text on one's own, for every registry and every ledger whose ignored names are
words, whatever it has recorded before. -/
theorem formatsTo_format {e : TypeExpr} (h : e.Basic) (r : Registry) (definitions : Definitions)
    {ignored : List String} (hi : ∀ n ∈ ignored, IsWord n) (past : List String) :
    FormatsTo e r ((Ledger.empty definitions ignored).recordAll past)
      (Scope.format ⟨r, ignored⟩ .multiLine (.text e.text) none) := by
  have hl := (Ledger.hasBuckets_empty definitions ignored).recordAll past
  have hignored : ((Ledger.empty definitions ignored).recordAll past).ignored = ignored :=
    Ledger.ignored_recordAll _ _
  have := formatsTo_of_hasBuckets h r hl (by rwa [hignored])
  rwa [hignored] at this

theorem basic_numberAndBytes : numberAndBytes.Basic := by
  refine .tuple (by decide) ?_
  simp only [List.mem_cons, List.not_mem_nil, or_false, forall_eq_or_imp, forall_eq]
  exact ⟨.name (isPlain_of_start rfl), .array _ (.name (isPlain_of_start rfl))⟩

/-- An option of a pair, with nothing recorded and `Option` declared by the document itself. -/
theorem formatsTo_format_option :
    (wrapper .option numberAndBytes).Basic ∧ (∀ n ∈ ["Option"], IsWord n) ∧
      (Scope.format ⟨{ known := ["u32", "u8"] }, ["Option"]⟩ .multiLine
        (.text "Option<(u32,[u8;4])>") none).outcome = .ok "Option<ITuple<[u32, U8aFixed]>>" := by
  have hbasic : (wrapper .option numberAndBytes).Basic :=
    .wrapper (fun h => absurd h (by decide)) basic_numberAndBytes
  have hword : ∀ n ∈ ["Option"], IsWord n := by
    intro n hn
    obtain rfl := List.mem_singleton.1 hn
    exact isWord_of_all rfl
  have hformat := formatsTo_format hbasic { known := ["u32", "u8"] } [] hword []
  exact ⟨hbasic, hword, hformat.rendered (by decide) rfl⟩

end ChainTypings.TypeExpr
