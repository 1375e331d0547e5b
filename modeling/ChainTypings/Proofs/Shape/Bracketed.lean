import ChainTypings.Proofs.Shape.Misfit
import ChainTypings.Proofs.Spelling.Balanced

/-!
# Well-bracketed texts at the top

Only the balance check says of a text that its brackets do not balance, and it says so of the normal
spelling that it was given. A text beneath is lighter than that spelling, so what is said at the top
is not said beneath. Hence `parseNamed_of_isBalanced`: a balanced text passes the check, and if it
is refused as unbalanced after all, then for a text that stands deeper in it.
-/

namespace ChainTypings

namespace Construct

open ChainTypings.Bracket

variable {value : List Char} {s : String}

theorem ofInline_ne_unbalanced : ofInline value ≠ .error (.unbalanced s) := by
  intro h
  unfold ofInline at h
  dsimp only at h
  split at h
  · cases h
  · unfold ofFields at h
    split at h
    · cases h
    · cases h
    · cases h
    split at h
    · split at h
      · cases h
      · next hflags =>
        obtain rfl := Except.error.inj h
        cases isResolution_of_readFlags hflags
    · cases h
  · cases h

/-- Only an unbalanced text is refused as unbalanced. -/
theorem read_eq_unbalanced (h : read value = .error (.unbalanced s)) :
    isBalanced value = false ∧ s = String.ofList value := by
  have square : ∀ inside, ofSquare value inside ≠ .error (.unbalanced s) := by
    intro inside h
    unfold ofSquare at h
    split at h
    · split at h <;> cases h
    · cases h
  have arguments : ∀ tag args, ofArguments value tag args ≠ .error (.unbalanced s) := by
    intro tag args h
    unfold ofArguments at h
    dsimp only at h
    repeat' split at h
    all_goals cases h
  have name : ofName value ≠ .error (.unbalanced s) := by
    intro h
    unfold ofName at h
    split at h
    · dsimp only at h
      split at h
      · exact arguments _ _ h
      · cases h
    · cases h
  unfold read at h
  split at h
  · next hbalanced =>
    cases h
    exact ⟨by simpa using hbalanced, rfl⟩
  split at h
  · cases h
  split at h
  · exact absurd h ofInline_ne_unbalanced
  split at h
  · cases h
  split at h
  · exact absurd h (square _)
  split at h
  · cases h
  · exact absurd h name

theorem assemble_ne_unbalanced {type : String} {shapes : List Shape} {c : Construct} :
    c.assemble type shapes ≠ .error (.unbalanced s) := by
  have counted : ∀ {digits : List Char} {f : Json → Shape},
      (count digits >>= fun length => Except.ok (f length)) ≠ .error (.unbalanced s) := by
    intro digits f h
    cases hcount : count digits with
    | ok n =>
      rw [hcount] at h
      cases h
    | error e =>
      rw [hcount] at h
      obtain rfl := Except.error.inj h
      cases isResolution_of_count hcount
  intro h
  cases c with
  | number tag bits label => exact counted h
  | vecFixed element digits => exact counted h
  | _ => cases h

end Construct

namespace Shape

open Construct ChainTypings.Bracket Spelling Text

/-- A text is refused as unbalanced at the top, or for a lighter text beneath. -/
theorem unbalanced_cases {text : List Char} {s : String}
    (h : parse text = .error (.unbalanced s)) :
    (isBalanced (normalize text) = false ∧ s = String.ofList (normalize text)) ∨
      weight s.toList < weight (normalize text) := by
  induction hw : weight text using Nat.strongRecOn generalizing text with
  | ind w ih =>
    rw [parse_eq] at h
    split at h
    · next htext =>
      obtain rfl := Except.error.inj h
      unfold ofText at htext
      dsimp only at htext
      split at htext
      · cases htext
      split at htext
      · cases htext
      · next hread =>
        obtain rfl := Except.error.inj htext
        exact .inl (read_eq_unbalanced hread)
    next value c htext =>
    split at h
    · next heach =>
      obtain rfl := Except.error.inj h
      obtain ⟨before, t, after, hoperands, -, ht⟩ := parseEach_eq_error_iff.1 heach
      have hmem : t ∈ c.operands := by simp [hoperands]
      obtain ⟨rfl, hread⟩ := ofText_eq_ok htext
      have hlighter := weight_lt_of_mem_operands hread hmem
      have hspelling := weight_normalize t
      right
      rcases ih _ (hw ▸ weight_lt_of_ofText htext hmem) ht rfl with ⟨-, rfl⟩ | hdeeper
      · rw [String.toList_ofList]
        omega
      · omega
    · exact absurd h assemble_ne_unbalanced

/-- The normal spelling of a balanced text is balanced, and the text is not refused for the brackets
of its normal spelling. -/
theorem parseNamed_of_isBalanced (name : Json) {text : List Char} (h : isBalanced text = true) :
    isBalanced (normalize text) = true ∧
      parseNamed name text ≠ .error (.unbalanced (String.ofList (normalize text))) := by
  have hbalanced := isBalanced_normalize h
  refine ⟨hbalanced, ?_⟩
  intro hrefused
  rcases unbalanced_cases ((parseNamed_eq_error_iff name).1 hrefused) with ⟨hfault, -⟩ | hlighter
  · rw [hbalanced] at hfault
    cases hfault
  · rw [String.toList_ofList] at hlighter
    omega

/-- A text with brackets of all kinds in what is taken out of it: a projection with a tuple among
its arguments, boxes in one another, a slice of bytes and parentheses around an element. -/
theorem parseNamed_boxedNest :
    isBalanced "<T as Tr<([u8; 4])>>::F<Box<(Vec<Box<((u32))>>)>, &'a [u8]>".toList = true ∧
      isBalanced
        (normalize "<T as Tr<([u8; 4])>>::F<Box<(Vec<Box<((u32))>>)>, &'a [u8]>".toList) = true ∧
      parseNamed .null "<T as Tr<([u8; 4])>>::F<Box<(Vec<Box<((u32))>>)>, &'a [u8]>".toList ≠
        .error (.unbalanced (String.ofList
          (normalize "<T as Tr<([u8; 4])>>::F<Box<(Vec<Box<((u32))>>)>, &'a [u8]>".toList))) :=
  ⟨by decide +kernel, parseNamed_of_isBalanced .null (by decide +kernel)⟩

end Shape

end ChainTypings
