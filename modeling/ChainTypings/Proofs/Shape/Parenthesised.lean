import ChainTypings.Proofs.Shape.RoundTrip
import ChainTypings.Proofs.Spelling.Parentheses
import ChainTypings.Shape.Beneath

/-!
# Types in parentheses

`parseNamed_eq_iff_transparent`: parentheses around parts of a canonical expression leave its shape
as it is if and only if they are transparent. Any others show in the text that the shape has for
its type, and around the whole expression they make a tuple of one element (`parse_enclosed`).
-/

namespace ChainTypings

open Text Spelling

/-! ## Shapes and normal spellings -/

namespace Shape

variable {s s' : List Char} {x x' : Shape}

/-- Texts with the same normal spelling have the same shape. -/
theorem parse_congr (h : normalize s = normalize s') (hne : normalize s ≠ []) :
    parse s = parse s' := by
  have htext : Construct.ofText s = Construct.ofText s' := by
    simp only [Construct.ofText, ← h, List.isEmpty_eq_false_iff.2 hne]
    rfl
  rw [parse_eq, parse_eq, htext]

/-- Texts of the same type have the same normal spelling, but for the empty tuple and its name. -/
theorem normalize_eq_or (hs : parse s = .ok x) (hs' : parse s' = .ok x')
    (h : x.head.type = x'.head.type) :
    normalize s = normalize s' ∨ normalize s = ['(', ')'] ∨ normalize s = "Null".toList := by
  rcases type_parse hs with htype | ⟨hunit, -⟩
  · rcases type_parse hs' with htype' | ⟨-, hnull⟩
    · left
      exact String.ofList_injective (htype.symm.trans (h.trans htype'))
    · right
      right
      rw [← String.toList_ofList (l := normalize s), ← htype, h, hnull]
  · exact .inr (.inl hunit)

theorem type_eq_of_named {name : Json} (h : x.named name = x'.named name) :
    x.head.type = x'.head.type := by
  have := congrArg (fun y => y.head.type) h
  simpa [named] using this

end Shape

namespace TypeExpr

variable {e : TypeExpr} {t : Phrase}

/-! ## What is left of the parentheses -/

namespace Canonical

/-- The phrase has no boxes if a canonical expression is what is left of it. -/
theorem unboxed (h : e.Canonical) (ht : t.stripped.aliased = e.phrase) : t.stripped.Unboxed :=
  .of_aliased (ht ▸ h.proper_phrase.unboxed)

/-- A text with the canonical text as its normal spelling has the shape of the expression. -/
theorem parse_of_normalize (h : e.Canonical) {s : List Char} (hs : normalize s = e.print) :
    Shape.parse s = .ok e.shape := by
  have hspelling := hs.trans (h.normalize_of_filter e.filter_print).symm
  rw [Shape.parse_congr hspelling (hs ▸ e.phrase.print_ne_nil), h.parse_print]

theorem parse_stripped (h : e.Canonical) (ht : t.stripped.aliased = e.phrase) :
    Shape.parse t.stripped.print = .ok e.shape := by
  refine h.parse_of_normalize ?_
  rw [(h.unboxed ht).normalize_of_filter t.stripped.filter_print, ht,
    Phrase.bared_eq_self_of_once h.proper_phrase.once_eq_self, print]

end Canonical

/-- Parentheses around one element leave the shape of a canonical expression as it is if and only
if they are transparent. -/
theorem parseNamed_eq_iff_transparent (h : e.Canonical) (ht : t.stripped.aliased = e.phrase)
    (name : Json) {s : List Char} (hs : s.filter (!isBlank ·) = t.print) :
    Shape.parseNamed name s = Shape.parseNamed name t.stripped.print ↔ t.Transparent := by
  have hspelling : normalize s = t.aliased.bared.print :=
    (h.unboxed ht).of_stripped.normalize_of_filter hs
  have hshape := h.parse_stripped ht
  constructor
  · intro heq
    -- the text in parentheses has a shape too, and the two agree in their types
    have hnamed : (Shape.parse s).map (Shape.named name) = .ok (e.shape.named name) := by
      rw [← Shape.parseNamed, heq, Shape.parseNamed, hshape]
      rfl
    cases hparse : Shape.parse s with
    | error err =>
      rw [hparse] at hnamed
      cases hnamed
    | ok x =>
      rw [hparse] at hnamed
      have htype := Shape.type_eq_of_named (Except.ok.inj hnamed)
      rcases Shape.normalize_eq_or hparse h.parse_print htype with hsame | hunit | hnull
      · rw [hspelling, h.normalize_of_filter e.filter_print] at hsame
        exact t.bared_aliased_eq_iff.1 ((Phrase.print_injective hsame).trans ht.symm)
      · have hbare : t.aliased.bared = .tuple [] := Phrase.print_injective (hspelling ▸ hunit)
        exact Phrase.transparent_of_bared_aliased (.inr hbare)
      · have hbare : t.aliased.bared = .name (.of "Null".toList) :=
          Phrase.print_injective (hspelling ▸ hnull)
        exact Phrase.transparent_of_bared_aliased (.inl ⟨_, hbare⟩)
  · intro htransparent
    have hsame : normalize s = e.print := by
      rw [hspelling, t.bared_aliased_eq_iff.2 htransparent, ht, print]
    rw [Shape.parseNamed, Shape.parseNamed, h.parse_of_normalize hsame, hshape]

/-- The numeral of the digit eight. -/
def eight : Numeral := ⟨['8'], by decide, List.all_eq_true.1 rfl⟩

/-- Vectors of eight numbers. -/
def eights : TypeExpr := .wrapper .vec (.array (.name (.of "u128".toList)) eight)

/-- The same with parentheses around the whole, the element and the number. -/
def enclosedEights : Phrase :=
  .tuple [.generic .vec [.tuple [.tuple [.array (.tuple [.name (.of "u128".toList)]) eight]]]]

theorem canonical_eights : eights.Canonical :=
  .wrapper (fun _ h => TypeExpr.noConfusion h) (.array _ (.name (isPlain_of_start rfl)))

theorem transparent_enclosedEights : enclosedEights.Transparent := by
  have hnumber : Phrase.Transparent (.tuple [.name (.of "u128".toList)]) :=
    .parentheses rfl (.name _)
  have hinner : Phrase.Transparent (.tuple [.array (.tuple [.name (.of "u128".toList)]) eight]) :=
    .parentheses rfl (.array _ hnumber)
  have helement := Phrase.Transparent.parentheses rfl hinner
  refine .parentheses rfl (.generic (fun _ h => Bool.noConfusion h) ?_)
  simpa using helement

theorem parseNamed_enclosedEights :
    eights.Canonical ∧ enclosedEights.stripped.aliased = eights.phrase ∧
      "( Vec<(( [(u128); 8] ))> )".toList.filter (!isBlank ·) = enclosedEights.print ∧
      Shape.parseNamed (.str "id") "( Vec<(( [(u128); 8] ))> )".toList =
        Shape.parseNamed (.str "id") "Vec<[u128;8]>".toList := by
  have hiff := parseNamed_eq_iff_transparent (t := enclosedEights) canonical_eights rfl (.str "id")
    (s := "( Vec<(( [(u128); 8] ))> )".toList) rfl
  exact ⟨canonical_eights, rfl, by decide, hiff.2 transparent_enclosedEights⟩

/-- A map in parentheses is a tuple, and bytes in parentheses make no sequence of bytes. -/
theorem parseNamed_enclosedMap_ne :
    Shape.parseNamed .null "(BTreeMap<u32,u64>)".toList ≠
        Shape.parseNamed .null "BTreeMap<u32,u64>".toList ∧
      Shape.parseNamed .null "Vec<(u8)>".toList ≠ Shape.parseNamed .null "Vec<u8>".toList := by
  have differ : ∀ {r r' : Except ParseError Shape},
      r.toOption.map (·.head.tag) ≠ r'.toOption.map (·.head.tag) → r ≠ r' := by
    rintro r r' h rfl
    exact h rfl
  exact ⟨differ (by decide +kernel), differ (by decide +kernel)⟩

/-! ## Parentheses that stay -/

/-- Around what is not flat the parentheses stay, and make a tuple of one element. -/
theorem parse_enclosed (h : e.Canonical) (hflat : e.phrase.isFlat = false) {s : List Char}
    (hs : s.filter (!isBlank ·) = '(' :: (e.print ++ [')'])) :
    Shape.parse s =
      .ok (.group { tag := .tuple, type := "(" ++ e.text ++ ")" } [e.shape]) := by
  have hprint : (Phrase.tuple [e.phrase]).print = '(' :: (e.print ++ [')']) := by
    simp [Phrase.print, Phrase.printEach, print]
  have hspelling : normalize s = (Phrase.tuple [e.phrase]).print := by
    have hunboxed : (Phrase.tuple [e.phrase]).Unboxed :=
      .tuple (by simpa using h.proper_phrase.unboxed)
    rw [hunboxed.normalize_of_filter (hs.trans hprint.symm), Phrase.aliased_tuple,
      List.map_singleton, h.aliased_phrase, Phrase.bared_parentheses,
      Phrase.bared_eq_self_of_once h.proper_phrase.once_eq_self, hflat]
    rfl
  have hread : Construct.read (normalize s) = .ok (.tuple [e.print]) := by
    rw [hspelling, Construct.read_tuple (by simp)]
    rfl
  have hne : (normalize s).isEmpty = false := by
    rw [hspelling, hprint]
    rfl
  have htext : Construct.ofText s = .ok (normalize s, .tuple [e.print]) := by
    simp only [Construct.ofText, hne, hread]
    rfl
  have htype : String.ofList (normalize s) = "(" ++ e.text ++ ")" := by
    rw [hspelling, hprint, text]
    apply String.toList_injective
    simp
  rw [Shape.parse_eq, htext]
  simp only [Construct.operands, Shape.parseEach, h.parse_print, Construct.assemble, htype]

end TypeExpr

end ChainTypings
