import ChainTypings.Json.ReadWeight
import ChainTypings.Shape.Construct
import ChainTypings.Spelling.Weight

/-!
# Operands are lighter

`weight_lt_of_mem_operands`: every text beneath a construct weighs less than the text of the
construct, for it lies inside a bracket or in the value of an inline definition. This is what ends
every recursion over type texts.
-/

namespace ChainTypings.Construct

open ChainTypings.Bracket Text Json

/-! ## Parts of a text -/

theorem mem_consHead {c : Char} {p : List Char} {ps : List (List Char)} (h : p ∈ consHead c ps) :
    p = [c] ∨ p ∈ ps ∨ ∃ q ∈ ps, p = c :: q := by
  cases ps with
  | nil => exact .inl (by simpa [consHead] using h)
  | cons q ps =>
    rcases List.mem_cons.1 h with rfl | h
    · exact .inr (.inr ⟨q, by simp, rfl⟩)
    · exact .inr (.inl (by simp [h]))

theorem weight_segments {separator : List Char} {depth : Int} {cs p : List Char}
    (h : p ∈ segments separator depth cs) : weight p ≤ weight cs := by
  induction cs generalizing depth p with
  | nil =>
    simp only [segments, List.mem_singleton] at h
    subst h
    exact Nat.le_refl _
  | cons c cs ih =>
    have step : ∀ {d}, p ∈ consHead c (segments separator d cs) → weight p ≤ weight (c :: cs) := by
      intro d hp
      rcases mem_consHead hp with rfl | hp | ⟨q, hq, rfl⟩
      · simp
      · have := ih hp
        rw [weight_cons]
        omega
      · have := ih hq
        simp only [weight_cons]
        omega
    unfold segments at h
    split at h
    · exact step h
    · split at h
      · exact step h
      · split at h
        · rcases List.mem_cons.1 h with rfl | h
          · simp
          · have := ih h
            rw [weight_cons]
            omega
        · exact step h

theorem weight_splitTopLevel {separator cs p : List Char} (h : p ∈ splitTopLevel separator cs) :
    weight p ≤ weight cs :=
  weight_segments (List.mem_filter.1 h).1

/-! ## Brackets -/

theorem weight_inside? {opener : Char} {cs inside : List Char} (ho : charWeight opener = 1)
    (h : inside? opener cs = some inside) : weight inside < weight cs := by
  unfold inside? at h
  split at h
  · next c rest =>
    split at h
    · next hc =>
      split at h
      · next i he =>
        obtain rfl := Option.some.inj h
        obtain ⟨k, rfl⟩ := enclosed_eq he
        subst hc
        simp only [weight_cons, weight_append, weight_nil]
        omega
      · simp at h
    · simp at h
  · simp at h

theorem weight_ofSquare {value inside t : List Char} {c : Construct}
    (h : ofSquare value inside = .ok c) (ht : t ∈ c.operands) : weight t ≤ weight inside := by
  unfold ofSquare at h
  split at h
  · next element count he =>
    split at h
    · obtain rfl := Except.ok.inj h
      obtain rfl := List.mem_singleton.1 ht
      have hm : t ∈ splitTopLevel [';'] inside := by rw [he]; exact List.mem_cons_self
      exact weight_splitTopLevel hm
    · simp at h
  · obtain rfl := Except.ok.inj h
    obtain rfl := List.mem_singleton.1 ht
    exact Nat.le_refl _

/-! ## Generic types -/

theorem mem_of_ofArguments {value t : List Char} {tag : Tag} {arguments : List (List Char)}
    {c : Construct} (h : ofArguments value tag arguments = .ok c) (ht : t ∈ c.operands) :
    t ∈ arguments := by
  unfold ofArguments at h
  dsimp only at h
  split at h
  · split at h
    · split at h
      · obtain rfl := Except.ok.inj h
        simp [operands] at ht
      · simp at h
    · simp at h
  · split at h
    · split at h
      · obtain rfl := Except.ok.inj h
        simp [operands] at ht
      · simp at h
    · simp at h
  · obtain rfl := Except.ok.inj h
    simp [operands] at ht
  · split at h
    · obtain rfl := Except.ok.inj h
      simpa [operands] using ht
    · obtain rfl := Except.ok.inj h
      simpa [operands] using ht
    · simp at h

theorem weight_ofName {value t : List Char} {c : Construct} (h : ofName value = .ok c)
    (ht : t ∈ c.operands) : weight t < weight value := by
  unfold ofName at h
  split at h
  · dsimp only at h
    split at h
    · have hmem := mem_of_ofArguments h ht
      have hle := weight_splitTopLevel hmem
      have hsub := List.dropWhile_sublist (l := value) fun x => decide (x ≠ '<')
      cases hd : value.dropWhile fun x => decide (x ≠ '<') with
      | nil =>
        rw [hd] at hmem
        simp [splitTopLevel, segments] at hmem
      | cons x rest =>
        have hx := List.head_dropWhile_not (fun x => decide (x ≠ '<')) (l := value)
          (by rw [hd]; exact List.cons_ne_nil _ _)
        simp only [hd, List.head_cons, decide_eq_false_iff_not, Decidable.not_not] at hx
        subst hx
        rw [hd] at hle hsub
        have h1 := weight_le_of_sublist hsub
        have h2 := weight_le_of_sublist (List.dropLast_sublist rest)
        have h3 : charWeight '<' = 1 := by decide
        simp only [List.drop_one, List.tail_cons] at hle
        rw [weight_cons] at h1
        omega
    · obtain rfl := Except.ok.inj h
      simp [operands] at ht
  · obtain rfl := Except.ok.inj h
    simp [operands] at ht

/-! ## Inline definitions -/

theorem weight_memberText (v : Json) : weight (memberText v) ≤ weigh v := by
  unfold memberText
  split
  · decide
  · exact Nat.le_refl _
  · exact weight_dumpChars _

theorem weigh_le_of_mem {k : String} {v : Json} {fields : List (String × Json)}
    (h : (k, v) ∈ fields) : weigh v ≤ weighFields fields := by
  induction fields with
  | nil => simp at h
  | cons f rest ih =>
    obtain ⟨k', v'⟩ := f
    rcases List.mem_cons.1 h with he | h
    · obtain ⟨rfl, rfl⟩ := Prod.mk.inj he
      simp only [weighFields]
      omega
    · have := ih h
      simp only [weighFields]
      omega

theorem mem_of_lookup {k : String} {v : Json} {fields : List (String × Json)}
    (h : fields.lookup k = some v) : (k, v) ∈ fields := by
  induction fields with
  | nil => simp at h
  | cons f rest ih =>
    obtain ⟨k', v'⟩ := f
    rw [List.lookup_cons] at h
    split at h
    · next he =>
      obtain rfl := Option.some.inj h
      rw [eq_of_beq he]
      simp
    · exact List.mem_cons_of_mem _ (ih h)

theorem weight_memberTexts {fields : List (String × Json)} {tag : Tag} {t : List Char}
    (ht : t ∈ (members tag (memberTexts fields)).operands) : weight t ≤ weighFields fields := by
  simp only [operands, memberTexts, List.map_map, List.mem_map] at ht
  obtain ⟨⟨k, v⟩, hm, rfl⟩ := ht
  exact Nat.le_trans (weight_memberText v) (weigh_le_of_mem hm)

theorem weight_ofFields {value : String} {fields : List (String × Json)} {c : Construct}
    {t : List Char} (h : ofFields value fields = .ok c) (ht : t ∈ c.operands) :
    weight t ≤ weighFields fields := by
  unfold ofFields at h
  split at h
  · obtain rfl := Except.ok.inj h
    simp [operands] at ht
  · next ms hl =>
    obtain rfl := Except.ok.inj h
    have h1 := weight_memberTexts ht
    have h2 := weigh_le_of_mem (mem_of_lookup hl)
    simp only [weigh] at h2
    omega
  · simp at h
  · split at h
    · split at h
      · obtain rfl := Except.ok.inj h
        simp [operands] at ht
      · simp at h
    · obtain rfl := Except.ok.inj h
      exact weight_memberTexts ht

theorem weight_ofInline {cs t : List Char} {c : Construct} (h : ofInline cs = .ok c)
    (ht : t ∈ c.operands) : weight t < weight cs := by
  unfold ofInline at h
  dsimp only at h
  split at h
  · simp at h
  · next fields hr =>
    have h1 := weigh_of_readChars hr
    have h2 := weight_ofFields h ht
    simp only [weigh] at h1
    omega
  · simp at h

/-! ## All constructs -/

/-- A text beneath a construct is lighter than the text of the construct. -/
theorem weight_lt_of_mem_operands {value t : List Char} {c : Construct} (h : read value = .ok c)
    (ht : t ∈ c.operands) : weight t < weight value := by
  unfold read at h
  split at h
  · simp at h
  · split at h
    · obtain rfl := Except.ok.inj h
      simp [operands] at ht
    · split at h
      · exact weight_ofInline h ht
      · split at h
        · next inside hi =>
          obtain rfl := Except.ok.inj h
          exact Nat.lt_of_le_of_lt (weight_splitTopLevel ht) (weight_inside? (by decide) hi)
        · split at h
          · next inside hi =>
            exact Nat.lt_of_le_of_lt (weight_ofSquare h ht) (weight_inside? (by decide) hi)
          · split at h
            · obtain rfl := Except.ok.inj h
              simp [operands] at ht
            · exact weight_ofName h ht

end ChainTypings.Construct
