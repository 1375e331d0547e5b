import ChainTypings.Spelling.Normal
import ChainTypings.Text.Weight

/-!
# Normal spellings are no heavier

No rule puts anything heavier in the place of a piece than the piece was, so that
`weight_normalize` holds: a normal spelling is never heavier than the text it was made from.
-/

namespace ChainTypings.Spelling

open Text

/-! ## Rules -/

/-- A rule that puts nothing heavier in a piece's place. -/
def Rule.Lightens (r : Rule) : Prop :=
  ∀ {inWord : Bool} {cs new rest : List Char},
    r.find? inWord cs = some (new, rest) → weight new + weight rest ≤ weight cs

theorem Rule.Lightens.weight_applyFrom {r : Rule} (hr : r.Lightens) (inWord : Bool)
    (cs : List Char) : weight (r.applyFrom inWord cs) ≤ weight cs := by
  refine Rule.apply_cases (r := r) (P := fun inWord cs => weight (r.applyFrom inWord cs) ≤ weight cs)
    ?_ ?_ ?_ inWord cs
  · intro inWord
    exact Nat.le_of_eq (by rw [Rule.applyFrom_nil])
  · intro inWord cs new rest h ih
    have := hr h
    rw [Rule.applyFrom_of_some h, weight_append]
    omega
  · intro inWord c cs h ih
    rw [Rule.applyFrom_of_none h, weight_cons, weight_cons]
    omega

theorem Rule.Lightens.weight_apply {r : Rule} (hr : r.Lightens) (cs : List Char) :
    weight (r.apply cs) ≤ weight cs := hr.weight_applyFrom false cs

theorem afterArguments_sublist (cs : List Char) : (afterArguments cs).Sublist cs := by
  unfold afterArguments
  split
  · next inside =>
    split
    · next rest h =>
      have := List.dropWhile_sublist (l := inside) (fun c => !(c = '<' || c = '>'))
      rw [h] at this
      exact ((List.sublist_cons_self _ _).trans this).trans (List.sublist_cons_self _ _)
    · exact List.Sublist.refl _
  · exact List.Sublist.refl _

theorem afterProjection?_sublist {cs rest : List Char} (h : afterProjection? cs = some rest) :
    rest.Sublist cs := by
  simp only [afterProjection?, Option.bind_eq_bind, Option.bind_eq_some_iff] at h
  obtain ⟨c₁, h₁, c₂, h₂, c₃, h₃, c₄, h₄, c₅, h₅, c₆, h₆, h₇⟩ := h
  exact (after?_sublist h₇).trans <| (List.dropWhile_sublist _).trans <|
    (afterArguments_sublist c₆).trans <| (afterSome?_sublist h₆).trans <|
    (afterSome?_sublist h₅).trans <| (after?_sublist h₄).trans <| (afterSome?_sublist h₃).trans <|
    (afterSome?_sublist h₂).trans <| (List.dropWhile_sublist _).trans (after?_sublist h₁)

theorem afterSegment?_sublist {inWord : Bool} {cs rest : List Char}
    (h : afterSegment? inWord cs = some rest) : rest.Sublist cs := by
  unfold afterSegment? at h
  split at h
  · split at h
    · exact (after?_sublist h).trans <|
        (List.dropWhile_sublist _).trans (List.sublist_cons_self _ _)
    · simp at h
  · simp at h

theorem afterLifetime_sublist (cs : List Char) : (afterLifetime cs).Sublist cs := by
  unfold afterLifetime
  split
  · next word =>
    cases h : afterSome? isWordChar word with
    | none => exact List.Sublist.refl _
    | some rest => exact (afterSome?_sublist h).trans (List.sublist_cons_self _ _)
  · exact List.Sublist.refl _

theorem afterReference?_sublist {cs rest : List Char} (h : afterReference? cs = some rest) :
    rest.Sublist cs := by
  obtain ⟨c₁, h₁, rfl⟩ := Option.map_eq_some_iff.1 h
  exact (List.dropWhile_sublist _).trans <| (afterLifetime_sublist c₁).trans (after?_sublist h₁)

theorem projection_lightens : projection.Lightens := by
  intro inWord cs new rest h
  obtain ⟨_, h', he⟩ := Option.map_eq_some_iff.1 h
  obtain ⟨rfl, rfl⟩ := Prod.mk.inj he
  simpa using weight_le_of_sublist (afterProjection?_sublist h')

theorem path_lightens : path.Lightens := by
  intro inWord cs new rest h
  obtain ⟨_, h', he⟩ := Option.map_eq_some_iff.1 h
  obtain ⟨rfl, rfl⟩ := Prod.mk.inj he
  simpa using weight_le_of_sublist (afterSegment?_sublist h')

theorem reference_lightens : reference.Lightens := by
  intro inWord cs new rest h
  obtain ⟨_, h', he⟩ := Option.map_eq_some_iff.1 h
  obtain ⟨rfl, rfl⟩ := Prod.mk.inj he
  simpa using weight_le_of_sublist (afterReference?_sublist h')

theorem textAlias_lightens : textAlias.Lightens := by
  intro inWord cs new rest h
  unfold textAlias textWord? at h
  dsimp only at h
  split at h
  · simp at h
  · split at h
    · obtain ⟨rfl, rfl⟩ := Prod.mk.inj (Option.some.inj h)
      have : weight ['T', 'e', 'x', 't'] = 0 := by decide
      rw [this, Nat.zero_add]
      exact weight_le_of_sublist (List.dropWhile_sublist _)
    · simp at h

theorem bytesAlias_lightens : bytesAlias.Lightens := by
  intro inWord cs new rest h
  unfold bytesAlias byteSequence? at h
  dsimp only at h
  split at h
  · simp at h
  · obtain ⟨r, hr, he⟩ := Option.map_eq_some_iff.1 h
    obtain ⟨rfl, rfl⟩ := Prod.mk.inj he
    obtain ⟨piece, -, hr⟩ := List.exists_of_findSome?_eq_some hr
    have : weight ['B', 'y', 't', 'e', 's'] = 0 := by decide
    rw [this, Nat.zero_add]
    exact weight_le_of_sublist (after?_sublist hr)

theorem oneElement_lightens : oneElement.Lightens := by
  intro inWord cs new rest h
  rw [(oneElement?_eq h).1]
  simp
  omega

/-! ## The normal spelling -/

theorem weight_unbox (cs : List Char) : weight (unbox cs) ≤ weight cs := by
  fun_induction unbox cs with
  | case1 cs new h ih =>
    obtain ⟨before, inside, after, k, rfl, rfl⟩ := dropBox?_eq h
    simp only [weight_append, weight_cons] at ih ⊢
    omega
  | case2 => exact Nat.le_refl _

theorem weight_flatten (cs : List Char) : weight (flatten cs) ≤ weight cs := by
  fun_induction flatten cs with
  | case1 cs once _ ih => exact Nat.le_trans ih (oneElement_lightens.weight_apply cs)
  | case2 cs once _ => exact oneElement_lightens.weight_apply cs

theorem weight_normalize (cs : List Char) : weight (normalize cs) ≤ weight cs :=
  Nat.le_trans (weight_flatten _) <| Nat.le_trans (bytesAlias_lightens.weight_apply _) <|
    Nat.le_trans (textAlias_lightens.weight_apply _) <| Nat.le_trans (weight_unbox _) <|
    Nat.le_trans (weight_le_of_sublist List.filter_sublist) <|
    Nat.le_trans (reference_lightens.weight_apply _) <|
    Nat.le_trans (path_lightens.weight_apply _) (projection_lightens.weight_apply cs)

end ChainTypings.Spelling
