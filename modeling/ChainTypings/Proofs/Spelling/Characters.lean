import ChainTypings.Spelling.Weight

/-!
# The characters of a normal spelling

A rule puts in the place of a piece a part of it or one of two names. So a normal spelling has no
characters but those of the text and of these names: what holds of every character of the text and
of the names holds of every character of the normal spelling (`forall_normalize`).
-/

namespace ChainTypings.Spelling

open Text

variable {p : Char → Prop}

/-- What the rule puts in, and what follows, has the property if the text has. -/
def Rule.Keeps (r : Rule) (p : Char → Prop) : Prop :=
  ∀ {inWord : Bool} {cs new rest : List Char}, r.find? inWord cs = some (new, rest) →
    (∀ c ∈ cs, p c) → (∀ c ∈ new, p c) ∧ ∀ c ∈ rest, p c

theorem Rule.Keeps.forall_apply {r : Rule} (hr : r.Keeps p) {cs : List Char}
    (h : ∀ c ∈ cs, p c) : ∀ c ∈ r.apply cs, p c := by
  refine Rule.apply_cases (r := r)
    (P := fun inWord cs => (∀ c ∈ cs, p c) → ∀ c ∈ r.applyFrom inWord cs, p c) ?_ ?_ ?_ false cs h
  · intro inWord h
    rwa [Rule.applyFrom_nil]
  · intro inWord cs new rest hfind ih h
    obtain ⟨hnew, hrest⟩ := hr hfind h
    rw [Rule.applyFrom_of_some hfind]
    exact List.forall_mem_append.2 ⟨hnew, ih hrest⟩
  · intro inWord c cs hfind ih h
    obtain ⟨hc, hcs⟩ := List.forall_mem_cons.1 h
    rw [Rule.applyFrom_of_none hfind]
    exact List.forall_mem_cons.2 ⟨hc, ih hcs⟩

/-- A rule that removes a piece keeps what is left of the text. -/
theorem keeps_removal {find? : Bool → List Char → Option (List Char)}
    {shorter : ∀ {inWord : Bool} {cs rest : List Char},
      find? inWord cs = some rest → rest.length < cs.length}
    (hsublist : ∀ {inWord cs rest}, find? inWord cs = some rest → rest.Sublist cs) :
    (removal find? shorter).Keeps p := by
  intro inWord cs new rest hfind h
  obtain ⟨_, hrest, heq⟩ := Option.map_eq_some_iff.1 hfind
  obtain ⟨rfl, rfl⟩ := Prod.mk.inj heq
  exact ⟨by simp, fun c hc => h c ((hsublist hrest).subset hc)⟩

theorem keeps_textAlias (hp : ∀ c ∈ ['T', 'e', 'x', 't'], p c) : textAlias.Keeps p := by
  intro inWord cs new rest hfind h
  unfold textAlias textWord? at hfind
  dsimp only at hfind
  split at hfind
  · cases hfind
  · split at hfind
    · obtain ⟨rfl, rfl⟩ := Prod.mk.inj (Option.some.inj hfind)
      exact ⟨hp, fun c hc => h c ((List.dropWhile_sublist _).subset hc)⟩
    · cases hfind

theorem keeps_bytesAlias (hp : ∀ c ∈ ['B', 'y', 't', 'e', 's'], p c) : bytesAlias.Keeps p := by
  intro inWord cs new rest hfind h
  unfold bytesAlias byteSequence? at hfind
  dsimp only at hfind
  split at hfind
  · cases hfind
  · obtain ⟨_, hrest, heq⟩ := Option.map_eq_some_iff.1 hfind
    obtain ⟨rfl, rfl⟩ := Prod.mk.inj heq
    obtain ⟨_, _, hrest⟩ := List.exists_of_findSome?_eq_some hrest
    exact ⟨hp, fun c hc => h c ((after?_sublist hrest).subset hc)⟩

theorem keeps_oneElement : oneElement.Keeps p := by
  intro inWord cs new rest hfind h
  rw [(oneElement?_eq hfind).1] at h
  exact ⟨fun c hc => h c (by simp [hc]), fun c hc => h c (by simp [hc])⟩

theorem forall_unbox {cs : List Char} (h : ∀ c ∈ cs, p c) : ∀ c ∈ unbox cs, p c := by
  fun_induction unbox cs with
  | case1 cs new hdrop ih =>
    obtain ⟨before, inside, after, k, rfl, rfl⟩ := dropBox?_eq hdrop
    refine ih fun c hc => h c ?_
    rw [List.mem_append, List.mem_append] at hc
    rcases hc with hc | hc | hc <;> simp [hc]
  | case2 => exact h

theorem forall_flatten {cs : List Char} (h : ∀ c ∈ cs, p c) : ∀ c ∈ flatten cs, p c := by
  fun_induction flatten cs with
  | case1 cs once _ ih => exact ih (keeps_oneElement.forall_apply h)
  | case2 cs once _ => exact keeps_oneElement.forall_apply h

/-- What holds of the characters of a text and of the names that may be put in holds of what the
passes behind the removal of blanks make of it. -/
theorem forall_tidy (hp : ∀ c ∈ "TextBytes".toList, p c) {cs : List Char} (h : ∀ c ∈ cs, p c) :
    ∀ c ∈ flatten (bytesAlias.apply (textAlias.apply (unbox cs))), p c := by
  have htext : textAlias.Keeps p := keeps_textAlias fun c hc => hp c (List.mem_append_left _ hc)
  have hbytes : bytesAlias.Keeps p :=
    keeps_bytesAlias fun c hc => hp c (List.mem_append_right ['T', 'e', 'x', 't'] hc)
  exact forall_flatten (hbytes.forall_apply (htext.forall_apply (forall_unbox h)))

/-- What holds of the characters of a text and of the names that may be put in holds of the
characters of its normal spelling. -/
theorem forall_normalize (hp : ∀ c ∈ "TextBytes".toList, p c) {cs : List Char}
    (h : ∀ c ∈ cs, p c) : ∀ c ∈ normalize cs, p c := by
  have hprojection : projection.Keeps p := keeps_removal afterProjection?_sublist
  have hpath : path.Keeps p := keeps_removal afterSegment?_sublist
  have hreference : reference.Keeps p := keeps_removal afterReference?_sublist
  have hbare := hreference.forall_apply (hpath.forall_apply (hprojection.forall_apply h))
  exact forall_tidy hp fun c hc => hbare c (List.mem_filter.1 hc).1

end ChainTypings.Spelling
