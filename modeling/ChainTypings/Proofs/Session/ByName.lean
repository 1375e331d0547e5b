import ChainTypings.Proofs.Import.Mentioned
import ChainTypings.Proofs.Session.WriteOnly

/-!
# Shapes referred to by name

A shape with a declared name is meant to be referred to by it, and its record of the names says so
whatever the shape is. But only four rules look at the name of the shape itself
(`Tag.isReferred`). By the others it is rendered as if it had none, so the name comes out only
where the structure happens to read like it (`format_eq_name_iff`), which no wrapper does when the
name is a word. One level down the name is looked at by whoever renders the part, so the same shape
reads one way as the part of a wrapper and another way through an indirection
(`format_option_split`).
-/

namespace ChainTypings

open Import Text

/-- Whether shapes with the tag are rendered as the name under which they are declared. -/
def Tag.isReferred : Tag → Bool
  | enum | plain | struct | tuple => true
  | _ => false

/-- Whether shapes with the tag are rendered as a wrapper around what is beneath. -/
def Tag.isWrapper : Tag → Bool
  | compact | option | vec | bTreeSet | linkage | wrapperOpaque | bTreeMap | hashMap | result =>
    true
  | _ => false

/-- A sequence gives a value if its steps do. -/
theorem Trail.ok_andThen {α β : Type} {t : Trail α} {f : α → Trail β} {b : β} :
    (t.andThen f).outcome = .ok b ↔ ∃ a, t.outcome = .ok a ∧ (f a).outcome = .ok b := by
  unfold andThen
  cases t.outcome <;> simp

theorem Expr.bracket_application (wrapper : String) (arguments : List String) :
    '<' ∈ (application wrapper arguments).toList := by
  simp [application]

namespace Scope

variable (s : Scope)

/-- What an entry is rendered as where an indirection leads to it. -/
def followed : Shape → Trail Expr :=
  match s.registry.entries.length with
  | 0 => fun _ => .fail .endless
  | hops + 1 => fun entry => s.renderWithin hops entry none

/-- What the rule of its tag gives for a shape when its own name is passed over. -/
def structural (shape : Shape) (hint : Option String) : Trail Expr :=
  s.rule s.followed shape.anonymous (s.beneath s.followed shape) hint

theorem render_eq_followed (shape : Shape) (hint : Option String) :
    s.render shape hint = s.renderShape s.followed shape hint := by
  unfold render followed
  cases s.registry.entries.length <;> rfl

theorem render_eq (shape : Shape) (hint : Option String) :
    s.render shape hint = (s.mention shape.head.reference).andThen fun _ =>
      s.rule s.followed shape (s.beneath s.followed shape) hint := by
  rw [render_eq_followed, renderShape_eq]

variable {s} {follow : Shape → Trail Expr}

theorem rule_of_isReferred {shape : Shape} {n : String} (hn : shape.head.alias? = some n)
    (ht : shape.head.tag.isReferred = true) (parts : Parts) (hint : Option String) :
    s.rule follow shape parts hint = .done (.name n) := by
  unfold rule aliasOr
  dsimp only
  rw [hn]
  cases htag : shape.head.tag with
  | enum | plain | struct | tuple => rfl
  | _ => exact absurd ht (by simp [htag, Tag.isReferred])

/-- The other rules give for a shape what they give for it without its name; only the error of a
shape that cannot be rendered shows the name. -/
theorem rule_anonymous {shape : Shape} (ht : shape.head.tag.isReferred = false) (parts : Parts)
    (hint : Option String) (e : Expr) :
    (s.rule follow shape parts hint).outcome = .ok e ↔
      (s.rule follow shape.anonymous parts hint).outcome = .ok e := by
  have hhead : shape.anonymous.head = { shape.head with lookupName := .null } :=
    Shape.head_mapHead _ shape
  have fail : ∀ r r' : Unsupported, ((Trail.fail (.unsupported shape r)).outcome = .ok e ↔
      (Trail.fail (.unsupported shape.anonymous r')).outcome = .ok e) := by
    intro r r'
    simp [Trail.fail]
  have wrap : ∀ w h, (s.wrap shape parts w h).outcome = .ok e ↔
      (s.wrap shape.anonymous parts w h).outcome = .ok e := by
    intro w h
    cases parts with
    | one p => exact Iff.rfl
    | _ => exact fail _ _
  have wrapTwo : ∀ w, (s.wrapTwo shape parts w).outcome = .ok e ↔
      (s.wrapTwo shape.anonymous parts w).outcome = .ok e := by
    intro w
    -- only a list of two is not refused
    rcases parts with _ | p | _ | ⟨a, _ | ⟨b, _ | ⟨c, ps⟩⟩⟩
    case many.cons.cons.nil => exact Iff.rfl
    all_goals exact fail _ _
  cases htag : shape.head.tag with
  | enum | plain | struct | tuple => exact absurd ht (by simp [htag, Tag.isReferred])
  | vecFixed =>
    simp only [rule, hhead, htag]
    cases parts with
    | one p =>
      dsimp only
      split
      · exact Iff.rfl
      · exact wrap "Vec" none
    | _ => exact fail _ _
  | bTreeMap | hashMap | result =>
    simp only [rule, hhead, htag]
    exact wrapTwo _
  | doNotConstruct | null =>
    simp only [rule, hhead, htag]
  | si =>
    simp only [rule, hhead, htag]
    exact Iff.rfl
  | int | uInt | range | set =>
    simp only [rule, hhead, htag]
    exact fail _ _
  | _ =>
    simp only [rule, hhead, htag]
    exact wrap _ _

/-- What a wrapper is rendered as has an angle bracket in it. -/
theorem bracket_of_isWrapper {shape : Shape} (ht : shape.head.tag.isWrapper = true)
    {parts : Parts} {hint : Option String} {e : Expr}
    (h : (s.rule follow shape parts hint).outcome = .ok e) (layout : Layout) :
    '<' ∈ (e.print layout).toList := by
  have wrap : ∀ w h, (s.wrap shape parts w h).outcome = .ok e →
      '<' ∈ (e.print layout).toList := by
    intro w h he
    cases parts with
    | one p =>
      obtain ⟨_, _, he⟩ := Trail.ok_andThen.1 he
      obtain ⟨_, _, he⟩ := Trail.ok_andThen.1 he
      obtain ⟨a, _, he⟩ := Trail.ok_andThen.1 he
      obtain rfl := Except.ok.inj he
      exact Expr.bracket_application w _
    | _ => cases he
  have wrapTwo : ∀ w, (s.wrapTwo shape parts w).outcome = .ok e →
      '<' ∈ (e.print layout).toList := by
    intro w he
    rcases parts with _ | p | _ | ⟨a, _ | ⟨b, _ | ⟨c, ps⟩⟩⟩
    case many.cons.cons.nil =>
      obtain ⟨_, _, he⟩ := Trail.ok_andThen.1 he
      obtain ⟨_, _, he⟩ := Trail.ok_andThen.1 he
      obtain ⟨_, _, he⟩ := Trail.ok_andThen.1 he
      obtain ⟨_, _, he⟩ := Trail.ok_andThen.1 he
      obtain rfl := Except.ok.inj he
      exact Expr.bracket_application w _
    all_goals cases he
  cases htag : shape.head.tag with
  | bTreeMap | hashMap | result =>
    simp only [rule, htag] at h
    exact wrapTwo _ h
  | compact | option | vec | bTreeSet | linkage | wrapperOpaque =>
    simp only [rule, htag] at h
    exact wrap _ _ h
  | _ => exact absurd ht (by simp [htag, Tag.isWrapper])

end Scope

namespace Call

/-- Formatting a shape gives a text if the shape is rendered as an expression of that text. -/
theorem format_eq_iff (r : Registry) (l : Ledger) (layout : Layout) (hint : Option String)
    (shape : Shape) (text : String) :
    (format r layout (.shape shape) hint).outcome l = .ok (some text) ↔
      ∃ e, (Scope.render ⟨r, l.ignored⟩ shape hint).outcome = .ok e ∧ e.print layout = text := by
  let t := Scope.render ⟨r, l.ignored⟩ shape hint
  rw [outcome_eq _ fun _ => Iff.rfl]
  show ((t.andThen fun e => .done (e.print layout)).andThen fun text =>
    .done (some text)).outcome = .ok (some text) ↔ _
  rw [Trail.andThen_assoc, Trail.ok_andThen]
  refine exists_congr fun e => and_congr_right fun _ => ?_
  rw [Trail.done_andThen]
  simp [Trail.done]

/-- A shape with a declared name is formatted as that name exactly if the name can be recorded and
the rule of its tag looks at the name, or gives just that text without it. A wrapper is never
formatted as its name if that is a word. -/
theorem format_eq_name_iff (r : Registry) (l : Ledger) (layout : Layout) (hint : Option String)
    {shape : Shape} {n : String} (hn : shape.head.alias? = some n) :
    ((format r layout (.shape shape) hint).outcome l = .ok (some n) ↔
      (mentionsOf l.ignored n).outcome = .ok () ∧
        (shape.head.tag.isReferred = true ∨
          ∃ e, (Scope.structural ⟨r, l.ignored⟩ shape hint).outcome = .ok e ∧
            e.print layout = n)) ∧
      (shape.head.tag.isWrapper = true → IsWord n →
        (format r layout (.shape shape) hint).outcome l ≠ .ok (some n)) := by
  have hreference : shape.head.reference = n := by
    rw [Head.reference, hn]
    rfl
  have hrender : (format r layout (.shape shape) hint).outcome l = .ok (some n) ↔
      (mentionsOf l.ignored n).outcome = .ok () ∧ ∃ e,
        (Scope.rule ⟨r, l.ignored⟩ (Scope.followed ⟨r, l.ignored⟩) shape
          (Scope.beneath ⟨r, l.ignored⟩ (Scope.followed ⟨r, l.ignored⟩) shape) hint).outcome =
            .ok e ∧ e.print layout = n := by
    rw [format_eq_iff, ← exists_and_left]
    refine exists_congr fun e => ?_
    rw [Scope.render_eq, hreference, Trail.ok_andThen, ← and_assoc]
    refine and_congr_left fun _ => ?_
    constructor
    · rintro ⟨_, hu, he⟩
      exact ⟨hu, he⟩
    · rintro ⟨hu, he⟩
      exact ⟨_, hu, he⟩
  refine ⟨hrender.trans (and_congr_right fun _ => ?_), ?_⟩
  · cases ht : shape.head.tag.isReferred with
    | true =>
      rw [Scope.rule_of_isReferred hn ht]
      exact ⟨fun _ => .inl rfl, fun _ => ⟨_, rfl, rfl⟩⟩
    | false =>
      rw [or_iff_right Bool.false_ne_true]
      exact exists_congr fun e => and_congr_left fun _ => Scope.rule_anonymous ht _ hint e
  · -- the text of a wrapper holds an angle bracket, which no word does
    intro ht hword h
    obtain ⟨_, e, he, rfl⟩ := hrender.1 h
    have hbracket := Scope.bracket_of_isWrapper ht he layout
    exact absurd (hword '<' hbracket) (by decide)

/-! ## A vector with a name -/

/-- A vector that is declared under a name. -/
def namedVec : Shape :=
  .single { tag := .vec, type := "Vec<u32>", lookupName := .str "Foo", lookupIndex := .int 0 }
    (.leaf { tag := .plain, type := "u32" })

/-- A registry of which the vector is the one entry. -/
def namedVecRegistry : Registry := { entries := [(.number 0 0, namedVec)], known := ["Foo", "u32"] }

/-- An option of a shape. -/
def optionOf (c : Shape) : Shape := .single { tag := .option, type := "Option" } c

/-- An indirection to the vector. -/
def toNamedVec : Shape := .leaf { tag := .si, type := "Lookup0", lookupIndex := .int 0 }

/-- What a shape is formatted as when the vector is in the registry. -/
def textOf (shape : Shape) : Except RenderError (Option String) :=
  (format namedVecRegistry .multiLine (.shape shape) none).outcome (.empty [] [])

/-- The vector has a name, and the name can be recorded, but the vector is not formatted as it. -/
theorem format_namedVec_ne :
    namedVec.head.alias? = some "Foo" ∧ (mentionsOf [] "Foo").outcome = .ok () ∧
      (format {} .multiLine (.shape namedVec) none).outcome (.empty [] []) ≠ .ok (some "Foo") :=
  ⟨rfl, by rw [mentionsOf_word [] (by decide) (isWord_of_all rfl)]; rfl,
    (format_eq_name_iff {} (.empty [] []) .multiLine none rfl).2 rfl (isWord_of_all rfl)⟩

/-- The named vector is rendered as its structure, and the same vector in an option is rendered as
its name where it stands in the option itself and as its structure through an indirection. -/
theorem format_option_split :
    textOf namedVec = .ok (some "Vec<u32>") ∧
      textOf (optionOf namedVec) = .ok (some "Option<Foo>") ∧
      textOf (optionOf toNamedVec) = .ok (some "Option<Vec<u32>>") := by
  have hmention : ∀ n : String, n.toList ≠ [] → n.toList.all isWordChar = true →
      (mentionsOf [] n).outcome = .ok () := by
    intro n hne hall
    rw [mentionsOf_word [] hne (isWord_of_all hall)]
    rfl
  have hfoo := hmention "Foo" (by decide) (by decide)
  have hvec := hmention "Vec" (by decide) (by decide)
  have hu32 := hmention "u32" (by decide) (by decide)
  have hlookup := hmention "Lookup0" (by decide) (by decide)
  have hoption := hmention "Option" (by decide) (by decide)
  let s : Scope := ⟨namedVecRegistry, []⟩
  -- on its own and behind an indirection the vector is rendered by its rule
  have hnamed : ∀ follow, (s.renderShape follow namedVec none).outcome =
      .ok (.wrap "Vec" (.name "u32")) := by
    intro follow
    refine Trail.ok_andThen.2 ⟨(), hfoo, Trail.ok_andThen.2 ⟨(), hvec, ?_⟩⟩
    refine Trail.ok_andThen.2 ⟨(), rfl, Trail.ok_andThen.2 ⟨.name "u32", ?_, rfl⟩⟩
    exact Trail.ok_andThen.2 ⟨(), hu32, Trail.ok_andThen.2 ⟨(), hu32, rfl⟩⟩
  refine ⟨?_, ?_, ?_⟩
  · exact (format_eq_iff _ _ _ _ _ _).2 ⟨.wrap "Vec" (.name "u32"), hnamed _, by decide⟩
  · refine (format_eq_iff _ _ _ _ _ _).2 ⟨.wrap "Option" (.name "Foo"), ?_, by decide⟩
    refine Trail.ok_andThen.2 ⟨(), hoption, Trail.ok_andThen.2 ⟨(), hoption, ?_⟩⟩
    have haliases : (mentionsAll [] ["Foo"]).outcome = .ok () :=
      Trail.ok_andThen.2 ⟨(), hfoo, rfl⟩
    exact Trail.ok_andThen.2 ⟨(), haliases, Trail.ok_andThen.2 ⟨.name "Foo", rfl, rfl⟩⟩
  · refine (format_eq_iff _ _ _ _ _ _).2
      ⟨.wrap "Option" (.wrap "Vec" (.name "u32")), ?_, by decide⟩
    refine Trail.ok_andThen.2 ⟨(), hoption, Trail.ok_andThen.2 ⟨(), hoption, ?_⟩⟩
    refine Trail.ok_andThen.2 ⟨(), rfl, Trail.ok_andThen.2 ⟨_, ?_, rfl⟩⟩
    exact Trail.ok_andThen.2 ⟨(), hlookup, hnamed _⟩

end Call

end ChainTypings
