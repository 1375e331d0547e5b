import ChainTypings.Proofs.Shape.TypeExpr

/-!
# Parsing undoes printing

The shape of a canonical text is the shape that its expression is meant to have. One layer is read
by the form of the expression (`Canonical.read_print`), its operands are the texts of the
expressions beneath, and the shapes of these are put together (`assemble_construct`).
-/

namespace ChainTypings.TypeExpr

open Text Spelling Construct

/-! ## One layer -/

/-- The expressions that are read beneath an expression. -/
def children : TypeExpr → List TypeExpr
  | tuple es => es
  | array e _ => [e]
  | slice e => [e]
  | wrapper _ e => [e]
  | pair _ a b => [a, b]
  | _ => []

/-- What the text of an expression is outermost. -/
def construct : TypeExpr → Construct
  | name _ => .plain
  | lookup n => .indirection n.value
  | unit => .unit
  | tuple es => .tuple (es.map print)
  | array e n => .vecFixed e.print n.digits
  | slice e => .vec e.print
  | wrapper w e => .wrapper w.tag e.print
  | pair p a b => .pair p.tag a.print b.print
  | number s n => .number (numberTag s) n.digits none
  | labelledNumber s n e => .number (numberTag s) n.digits (some e.print)
  | doNotConstruct _ => .doNotConstruct
  | generic _ _ => .plain

theorem operands_construct (e : TypeExpr) : e.construct.operands = e.children.map print := by
  cases e <;> rfl

/-! ### The names with a rule -/

theorem lookup_wrapper (w : Wrapper) : generics.lookup w.word.toString = some w.tag := by
  cases w <;> decide

theorem lookup_pairing (p : Pairing) : generics.lookup p.tag.word.toString = some p.tag := by
  cases p <;> decide

theorem lookup_number (s : Bool) :
    generics.lookup (numberTag s).word.toString = some (numberTag s) := by
  cases s <;> decide

theorem lookup_eq_none {h : AsciiWord} (ht : ∀ p ∈ generics, p.1 ≠ h.toString) :
    generics.lookup h.toString = none := by
  rw [List.lookup_eq_none_iff]
  intro p hp
  simpa using (ht p hp).symm

theorem ofArguments_number (s : Bool) (value : List Char) (n : Numeral)
    (rest : List (List Char)) : ofArguments value (numberTag s) (n.digits :: rest) =
      .ok (.number (numberTag s) n.digits rest.head?) := by
  cases s <;> simp [ofArguments, numberTag, n.allDigits_digits]

/-- The text of a canonical expression is read as its form. -/
theorem Canonical.read_print {e : TypeExpr} (h : e.Canonical) : read e.print = .ok e.construct := by
  cases h with
  | name hw => exact read_name hw.not_lookup
  | lookup n => exact read_lookup (w := lookupWord n) rfl
  | unit => rfl
  | @tuple es hn _ =>
    have hne : es.map phrase ≠ [] := by
      intro he
      rw [List.map_eq_nil_iff.1 he] at hn
      exact absurd hn (by decide)
    rw [print, phrase, phraseEach_eq_map, read_tuple hne, construct, List.map_map]
    rfl
  | array n _ => exact read_array _ n
  | slice _ _ => exact read_slice _
  | @wrapper w e _ _ =>
    rw [print, phrase, read_generic, lookup_wrapper]
    cases w <;> rfl
  | pair p _ _ =>
    rw [print, phrase, read_generic, lookup_pairing]
    cases p <;> rfl
  | number s n =>
    rw [print, phrase, read_generic, lookup_number]
    exact ofArguments_number s _ n []
  | labelledNumber s n _ =>
    rw [print, phrase, read_generic, lookup_number]
    exact ofArguments_number s _ n [_]
  | doNotConstruct _ =>
    rw [print, phrase, read_generic]
    rfl
  | generic _ _ ht _ =>
    rw [print, phrase, read_generic, lookup_eq_none ht]
    rfl

theorem count_digits (n : Numeral) : count n.digits = .ok (.int n.value) := by
  rw [count, n.decimalNumber?_digits]

/-- The shape of a form is put together from the shapes beneath. -/
theorem assemble_construct (e : TypeExpr) :
    e.construct.assemble e.text (e.children.map shape) = .ok e.shape := by
  cases e with
  | tuple es => simp only [construct, assemble, children, shape, shapeEach_eq_map]
  | array e n =>
    simp only [construct, assemble, count_digits, children, List.map_cons, List.map_nil, shape]
    rfl
  | number s n =>
    simp only [construct, assemble, count_digits, shape]
    rfl
  | labelledNumber s n e =>
    simp only [construct, assemble, count_digits, shape]
    rfl
  | _ => rfl

/-! ## All layers -/

/-- The text of an expression holds no blanks. -/
theorem filter_print (e : TypeExpr) : e.print.filter (!isBlank ·) = e.print :=
  e.phrase.filter_print

theorem parseEach_print {es : List TypeExpr} (h : ∀ e ∈ es, Shape.parse e.print = .ok e.shape) :
    Shape.parseEach Shape.parse (es.map print) = .ok (es.map shape) := by
  induction es with
  | nil => rfl
  | cons e es ih =>
    have he := h e (by simp)
    have hes := ih fun d hd => h d (List.mem_cons_of_mem _ hd)
    rw [List.map_cons, Shape.parseEach, he, hes, List.map_cons]

namespace Canonical

variable {e : TypeExpr}

/-- An expression is parsed if the expressions beneath are. -/
theorem parse_step (h : e.Canonical) (hc : ∀ d ∈ e.children, Shape.parse d.print = .ok d.shape)
    {s : List Char} (hs : s.filter (!isBlank ·) = e.print) : Shape.parse s = .ok e.shape := by
  have hne : e.print.isEmpty = false := List.isEmpty_eq_false_iff.2 e.phrase.print_ne_nil
  have htext : ofText s = .ok (e.print, e.construct) := by
    rw [ofText, h.normalize_of_filter hs]
    simp only [hne, h.read_print]
    rfl
  rw [Shape.parse_eq, htext]
  simp only [operands_construct, parseEach_print hc]
  exact assemble_construct e

/-- Induction on canonical expressions along what is read beneath them. -/
theorem induction_children {motive : TypeExpr → Prop}
    (step : ∀ e : TypeExpr, e.Canonical → (∀ d ∈ e.children, motive d) → motive e)
    (h : e.Canonical) : motive e := by
  induction h with
  | name hw => exact step _ (.name hw) (by simp [children])
  | lookup n => exact step _ (.lookup n) (by simp [children])
  | unit => exact step _ .unit (by simp [children])
  | tuple hn hes ih => exact step _ (.tuple hn hes) ih
  | array n he ih => exact step _ (.array n he) (by simpa [children] using ih)
  | slice hb he ih => exact step _ (.slice hb he) (by simpa [children] using ih)
  | wrapper hb he ih => exact step _ (.wrapper hb he) (by simpa [children] using ih)
  | pair p ha hb iha ihb => exact step _ (.pair p ha hb) (by simpa [children] using ⟨iha, ihb⟩)
  | number s n => exact step _ (.number s n) (by simp [children])
  | labelledNumber s n he _ => exact step _ (.labelledNumber s n he) (by simp [children])
  | doNotConstruct hes _ => exact step _ (.doNotConstruct hes) (by simp [children])
  | generic hg hb ht hes _ => exact step _ (.generic hg hb ht hes) (by simp [children])

/-- A text that is canonical but for blanks has the shape that its expression is meant to have. -/
theorem parse_of_filter (h : e.Canonical) {s : List Char}
    (hs : s.filter (!isBlank ·) = e.print) : Shape.parse s = .ok e.shape := by
  revert s
  refine h.induction_children (motive := fun e => ∀ {s : List Char},
    s.filter (!isBlank ·) = e.print → Shape.parse s = .ok e.shape) ?_
  intro e he ih s hs
  exact he.parse_step (fun d hd => ih d hd d.filter_print) hs

theorem parse_print (h : e.Canonical) : Shape.parse e.print = .ok e.shape :=
  h.parse_of_filter e.filter_print

end Canonical

/-- Whatever blanks stand in the text of a canonical expression and whatever name it is given, it
is parsed as the shape that the expression is meant to have, with that name at its root. -/
theorem parseNamed_of_filter {e : TypeExpr} (h : e.Canonical) (name : Json) {s : List Char}
    (hs : s.filter (!isBlank ·) = e.print) :
    Shape.parseNamed name s = .ok (e.shape.named name) := by
  rw [Shape.parseNamed, h.parse_of_filter hs]
  rfl

/-- A pair of a number and four bytes. -/
def numberAndBytes : TypeExpr :=
  .tuple [.name (.of "u32".toList),
    .array (.name .u8) ⟨['4'], by decide, List.all_eq_true.1 rfl⟩]

theorem isPlain_of_start {w : AsciiWord} {cs : List Char} (h : w.chars = 'u' :: cs) :
    w.IsPlain where
  not_text := AsciiWord.isText_eq_false h (by decide) (by decide)
  not_lookup := by
    rintro ⟨n, hn⟩
    exact absurd (List.cons.inj (h.symm.trans hn)).1 (by decide)

theorem canonical_numberAndBytes : numberAndBytes.Canonical := by
  refine .tuple (by decide) ?_
  simp only [List.mem_cons, List.not_mem_nil, or_false, forall_eq_or_imp, forall_eq]
  exact ⟨.name (isPlain_of_start rfl), .array _ (.name (isPlain_of_start rfl))⟩

theorem parseNamed_numberAndBytes :
    numberAndBytes.Canonical ∧
      " ( u32,\t[u8; 4] )".toList.filter (!isBlank ·) = numberAndBytes.print ∧
      Shape.parseNamed (.str "id") " ( u32,\t[u8; 4] )".toList =
        .ok (.group { tag := .tuple, type := "(u32,[u8;4])", name := .str "id" }
          [.leaf { tag := .plain, type := "u32" },
            .single { tag := .vecFixed, type := "[u8;4]", length := .int 4 }
              (.leaf { tag := .plain, type := "u8" })]) :=
  ⟨canonical_numberAndBytes, by decide,
    parseNamed_of_filter canonical_numberAndBytes (.str "id") rfl⟩

end ChainTypings.TypeExpr
