import ChainTypings.Json.Reader
import ChainTypings.Json.Weight

/-!
# Values weigh no more than their text

`weigh_of_readChars`: a value that is read from a text is no heavier than the text. With the bounds
on writing, reading a text and writing the value again makes nothing heavier, however deep the
escapes are nested.
-/

namespace ChainTypings.Json

open Text

/-! ## Numbers and words -/

theorem whole?_sublist {cs ds rest : List Char} (h : whole? cs = some (ds, rest)) :
    rest.Sublist cs := by
  unfold whole? at h
  split at h
  · obtain ⟨-, rfl⟩ := Prod.mk.inj (Option.some.inj h)
    exact List.sublist_cons_self _ _
  · dsimp only [digits] at h
    split at h
    · simp at h
    · obtain ⟨-, rfl⟩ := Prod.mk.inj (Option.some.inj h)
      exact List.dropWhile_sublist _

theorem fraction_sublist (cs : List Char) : (fraction cs).2.Sublist cs := by
  unfold fraction
  split
  · dsimp only [digits]
    split
    · exact List.Sublist.refl _
    · exact (List.dropWhile_sublist _).trans (List.sublist_cons_self _ _)
  · exact List.Sublist.refl _

theorem sign_sublist (cs : List Char) : (sign cs).2.Sublist cs := by
  unfold sign
  split
  · exact List.sublist_cons_self _ _
  · exact List.sublist_cons_self _ _
  · exact List.Sublist.refl _

theorem exponent?_sublist {cs rest : List Char} {power : Int}
    (h : exponent? cs = some (power, rest)) : rest.Sublist cs := by
  unfold exponent? at h
  split at h
  · next e more =>
    split at h
    · dsimp only [digits] at h
      split at h
      · simp at h
      · obtain ⟨-, rfl⟩ := Prod.mk.inj (Option.some.inj h)
        exact (List.dropWhile_sublist _).trans <|
          (sign_sublist more).trans (List.sublist_cons_self _ _)
    · simp at h
  · simp at h

theorem minus_sublist (cs : List Char) : (minus cs).2.Sublist cs := by
  unfold minus
  split
  · exact List.sublist_cons_self _ _
  · exact List.Sublist.refl _

theorem number?_bound {cs rest : List Char} {v : Json} (h : number? cs = some (v, rest)) :
    weigh v = 0 ∧ rest.Sublist cs := by
  have hs := minus_sublist cs
  unfold number? at h
  dsimp only at h
  split at h
  · simp at h
  · next ds r hw =>
    have hr := (whole?_sublist hw).trans hs
    have hf := (fraction_sublist r).trans hr
    split at h
    · next he1 he2 =>
      obtain ⟨rfl, rfl⟩ := Prod.mk.inj (Option.some.inj h)
      exact ⟨rfl, hf⟩
    · next =>
      obtain ⟨rfl, rfl⟩ := Prod.mk.inj (Option.some.inj h)
      refine ⟨rfl, ?_⟩
      cases he : exponent? (fraction r).2 with
      | none => exact hf
      | some p => exact (exponent?_sublist he).trans hf

theorem words_bound : ∀ p ∈ words, weigh p.2 ≤ weight p.1 := by
  intro p hp
  simp only [words, List.mem_cons, List.not_mem_nil, or_false] at hp
  rcases hp with rfl | rfl | rfl | rfl | rfl | rfl <;> decide

theorem word?_bound {cs rest : List Char} {v : Json} (h : word? cs = some (v, rest)) :
    weigh v + weight rest ≤ weight cs := by
  obtain ⟨⟨w, u⟩, hp, h'⟩ := List.exists_of_findSome?_eq_some h
  obtain ⟨r, hr, he⟩ := Option.map_eq_some_iff.1 h'
  obtain ⟨rfl, rfl⟩ := Prod.mk.inj he
  have := words_bound _ hp
  rw [after?_eq hr, weight_append]
  exact Nat.add_le_add_right this _

/-! ## Strings -/

/-- The weight of a code unit: of a surrogate one, for it is half of a character that weighs two. -/
def unitWeight (u : Nat) : Nat :=
  if 0xd800 ≤ u ∧ u ≤ 0xdfff then 1 else charWeight (Char.ofNat u)

/-- The weight of code units. -/
def unitsWeight : List Nat → Nat
  | [] => 0
  | u :: us => unitWeight u + unitsWeight us

theorem unitsWeight_nil : unitsWeight [] = 0 := rfl

theorem unitsWeight_cons (u : Nat) (us : List Nat) :
    unitsWeight (u :: us) = unitWeight u + unitsWeight us := rfl

theorem unitWeight_toNat (c : Char) : unitWeight c.toNat = charWeight c := by
  unfold unitWeight
  rw [if_neg, Char.ofNat_toNat]
  have := c.valid
  simp only [UInt32.isValidChar, Nat.isValidChar] at this
  have h : c.toNat = c.val.toNat := rfl
  omega

theorem charWeight_single (u : Nat) :
    charWeight (if u < 0xd800 ∨ 0xdfff < u then Char.ofNat u else '\ufffd') ≤ unitWeight u := by
  unfold unitWeight
  split
  · exact Nat.le_of_eq (by rw [if_neg (by omega)])
  · rw [if_pos (by omega)]
    decide

theorem weight_joinUnits (us : List Nat) :
    weight (joinUnits us) ≤ unitsWeight us := by
  fun_induction joinUnits us with
  | case1 => exact Nat.le_refl _
  | case2 u => simpa [unitsWeight] using charWeight_single u
  | case3 u v rest h ih =>
    have h2 := charWeight_le_two (Char.ofNat (0x10000 + 1024 * (u - 0xd800) + (v - 0xdc00)))
    have hu : unitWeight u = 1 := by unfold unitWeight; rw [if_pos (by omega)]
    have hv : unitWeight v = 1 := by unfold unitWeight; rw [if_pos (by omega)]
    simp only [weight_cons, unitsWeight_cons, hu, hv]
    omega
  | case4 u v rest h ih =>
    have := charWeight_single u
    simp only [weight_cons, unitsWeight_cons] at ih ⊢
    omega

theorem hexValue?_lt {c : Char} {n : Nat} (h : hexValue? c = some n) : n < 16 := by
  unfold hexValue? at h
  split at h
  · next hc =>
    obtain rfl := Option.some.inj h
    have h1 : c.toNat ≤ 57 := hc.2
    omega
  · split at h
    · next hc =>
      obtain rfl := Option.some.inj h
      have h1 : c.toNat ≤ 102 := hc.2
      omega
    · split at h
      · next hc =>
        obtain rfl := Option.some.inj h
        have h1 : c.toNat ≤ 70 := hc.2
        omega
      · simp at h

theorem charWeight_le_one_of_small {n : Nat} (h : n < 0x10000) : charWeight (Char.ofNat n) ≤ 1 := by
  have hn : (Char.ofNat n).toNat < 0x10000 := by
    have hd : Char.ofNat n = if hv : n.isValidChar then Char.ofNatAux n hv else '\x00' := rfl
    rw [hd]
    by_cases hv : n.isValidChar
    · rw [dif_pos hv]
      exact h
    · rw [dif_neg hv]
      decide
  unfold charWeight
  repeat' split
  all_goals omega

theorem unit?_weight {a b c d : Char} {u : Nat} (h : unit? a b c d = some u) :
    unitWeight u ≤ 1 := by
  simp only [unit?, Option.bind_eq_bind, Option.bind_eq_some_iff, Option.some.injEq] at h
  obtain ⟨a', ha, b', hb, c', hc, d', hd, rfl⟩ := h
  have := hexValue?_lt ha
  have := hexValue?_lt hb
  have := hexValue?_lt hc
  have := hexValue?_lt hd
  unfold unitWeight
  split
  · exact Nat.le_refl _
  · exact charWeight_le_one_of_small (by omega)

theorem escaped?_weight {c x : Char} (h : escaped? c = some x) : unitWeight x.toNat = 0 := by
  rw [unitWeight_toNat]
  unfold escaped? at h
  split at h <;> first | (obtain rfl := Option.some.inj h; decide) | simp at h

theorem consUnit_eq_ok {u : Nat} {step : Step (List Nat)} {us rest}
    (h : consUnit u step = .ok (us, rest)) :
    ∃ us', us = u :: us' ∧ step = .ok (us', rest) := by
  unfold consUnit at h
  split at h
  · next us' r =>
    obtain ⟨rfl, rfl⟩ := Prod.mk.inj (Except.ok.inj h)
    exact ⟨us', rfl, rfl⟩
  · simp at h

theorem units_bound {inside : List Char} {cs rest : List Char} {us : List Nat}
    (h : units inside cs = .ok (us, rest)) :
    unitsWeight us + weight rest ≤ weight cs := by
  have hu1 : charWeight 'u' = 1 := by decide
  have hb0 : charWeight '\\' = 0 := by decide
  fun_induction units inside cs generalizing us rest with
  | case1 => simp at h
  | case2 r =>
    obtain ⟨rfl, rfl⟩ := Prod.mk.inj (Except.ok.inj h)
    simp [unitsWeight_nil]
  | case3 => simp at h
  | case4 a b c d e r u hu ih =>
    obtain ⟨us', rfl, h'⟩ := consUnit_eq_ok h
    have h1 := ih h'
    have h2 := unit?_weight hu
    simp only [weight_cons, unitsWeight_cons, hu1, hb0] at h1 ⊢
    omega
  | case5 => simp at h
  | case6 => simp at h
  | case7 c r _ _ x hx ih =>
    obtain ⟨us', rfl, h'⟩ := consUnit_eq_ok h
    have h1 := ih h'
    have h2 := escaped?_weight hx
    simp only [weight_cons, unitsWeight_cons, hb0] at h1 ⊢
    omega
  | case8 => simp at h
  | case9 => simp at h
  | case10 c r _ _ _ _ _ _ ih =>
    obtain ⟨us', rfl, h'⟩ := consUnit_eq_ok h
    have h1 := ih h'
    simp only [weight_cons, unitsWeight_cons, unitWeight_toNat]
    omega

theorem string_bound {cs rest : List Char} {s : String} (h : string cs = .ok (s, rest)) :
    weight s.toList + weight rest ≤ weight cs := by
  unfold string at h
  split at h
  · next us r hu =>
    obtain ⟨rfl, rfl⟩ := Prod.mk.inj (Except.ok.inj h)
    have h1 := units_bound hu
    have h2 := weight_joinUnits us
    rw [String.toList_ofList]
    omega
  · simp at h

/-! ## Objects -/

theorem weighFields_put (k : String) (v : Json) (fields : List (String × Json)) :
    weighFields (put k v fields) ≤ weight k.toList + weigh v + weighFields fields := by
  induction fields with
  | nil => simp [put, weighFields]
  | cons f rest ih =>
    obtain ⟨k', v'⟩ := f
    unfold put
    split
    · next h =>
      subst h
      simp only [weighFields]
      omega
    · simp only [weighFields] at ih ⊢
      omega

theorem weigh_ofFields (fields : List (String × Json)) :
    weigh (ofFields fields) ≤ 1 + weighFields fields := by
  have h : ∀ (fs acc : List (String × Json)),
      weighFields (fs.foldl (fun acc f => put f.1 f.2 acc) acc) ≤
        weighFields acc + weighFields fs := by
    intro fs
    induction fs with
    | nil => intro acc; simp [weighFields]
    | cons f rest ih =>
      intro acc
      obtain ⟨k, v⟩ := f
      have h1 := ih (put k v acc)
      have h2 := weighFields_put k v acc
      simp only [List.foldl_cons, weighFields]
      omega
  have := h fields []
  simp only [ofFields, weigh]
  simp only [weighFields] at this
  omega

/-! ## Values -/

theorem skip_sublist (cs : List Char) : (skip cs).Sublist cs := List.dropWhile_sublist _

/-- Reading at a given bound on the nesting adds no weight. -/
def Bounded (fuel : Nat) : Prop :=
  (∀ cs v rest, value fuel cs = .ok (v, rest) → weigh v + weight rest ≤ weight cs) ∧
  (∀ cs vs rest, items fuel cs = .ok (vs, rest) → weighItems vs + weight rest ≤ weight cs) ∧
  (∀ cs fs rest, members fuel cs = .ok (fs, rest) → weighFields fs + weight rest ≤ weight cs)

theorem value_bound_succ {fuel : Nat} (ih : Bounded fuel) {cs rest : List Char} {v : Json}
    (h : value (fuel + 1) cs = .ok (v, rest)) : weigh v + weight rest ≤ weight cs := by
  have hm := charWeight_marks
  unfold value at h
  split at h
  · split at h
    · next hs =>
      obtain ⟨rfl, rfl⟩ := Prod.mk.inj (Except.ok.inj h)
      have := string_bound hs
      simp only [weigh, weight_cons]
      omega
    · simp at h
  · next r =>
    have hsk := weight_le_of_sublist (skip_sublist r)
    split at h
    · next hr =>
      obtain ⟨rfl, rfl⟩ := Prod.mk.inj (Except.ok.inj h)
      rw [hr] at hsk
      simp only [weigh, weighFields, weight_cons] at hsk ⊢
      omega
    · split at h
      · next fs r' hf =>
        obtain ⟨rfl, rfl⟩ := Prod.mk.inj (Except.ok.inj h)
        have h1 := ih.2.2 _ _ _ hf
        have h2 := weigh_ofFields fs
        simp only [weight_cons]
        omega
      · simp at h
  · next r =>
    have hsk := weight_le_of_sublist (skip_sublist r)
    split at h
    · next hr =>
      obtain ⟨rfl, rfl⟩ := Prod.mk.inj (Except.ok.inj h)
      rw [hr] at hsk
      simp only [weigh, weighItems, weight_cons] at hsk ⊢
      omega
    · split at h
      · next vs r' hf =>
        obtain ⟨rfl, rfl⟩ := Prod.mk.inj (Except.ok.inj h)
        have h1 := ih.2.1 _ _ _ hf
        simp only [weigh, weight_cons]
        omega
      · simp at h
  · split at h
    · next hw =>
      obtain rfl := Except.ok.inj h
      exact word?_bound hw
    · split at h
      · next hn =>
        obtain rfl := Except.ok.inj h
        obtain ⟨h0, hs⟩ := number?_bound hn
        have := weight_le_of_sublist hs
        omega
      · simp [stop] at h

theorem items_bound_succ {fuel : Nat} (ih : Bounded fuel) {cs rest : List Char} {vs : List Json}
    (h : items (fuel + 1) cs = .ok (vs, rest)) : weighItems vs + weight rest ≤ weight cs := by
  have hm := charWeight_marks
  unfold items at h
  split at h
  · simp at h
  · next v r hv =>
    have h1 := ih.1 _ _ _ hv
    have hsk := weight_le_of_sublist (skip_sublist r)
    split at h
    · next hr =>
      obtain ⟨rfl, rfl⟩ := Prod.mk.inj (Except.ok.inj h)
      rw [hr] at hsk
      simp only [weighItems, weight_cons] at hsk ⊢
      omega
    · next r' hr =>
      have hsk' := weight_le_of_sublist (skip_sublist r')
      rw [hr] at hsk
      split at h
      · next vs' r'' hi =>
        obtain ⟨rfl, rfl⟩ := Prod.mk.inj (Except.ok.inj h)
        have h2 := ih.2.1 _ _ _ hi
        simp only [weighItems, weight_cons] at hsk ⊢
        omega
      · simp at h
    · simp [stop] at h

theorem members_bound_succ {fuel : Nat} (ih : Bounded fuel) {cs rest : List Char}
    {fs : List (String × Json)} (h : members (fuel + 1) cs = .ok (fs, rest)) :
    weighFields fs + weight rest ≤ weight cs := by
  have hm := charWeight_marks
  unfold members at h
  split at h
  · split at h
    · simp at h
    · next key r hs =>
      have h0 := string_bound hs
      have hsk := weight_le_of_sublist (skip_sublist r)
      split at h
      · next r1 hr1 =>
        rw [hr1] at hsk
        have hsk1 := weight_le_of_sublist (skip_sublist r1)
        split at h
        · simp at h
        · next v r2 hv =>
          have h1 := ih.1 _ _ _ hv
          have hsk2 := weight_le_of_sublist (skip_sublist r2)
          split at h
          · next hr3 =>
            obtain ⟨rfl, rfl⟩ := Prod.mk.inj (Except.ok.inj h)
            rw [hr3] at hsk2
            simp only [weighFields, weight_cons] at hsk hsk2 ⊢
            omega
          · next r3 hr3 =>
            rw [hr3] at hsk2
            have hsk3 := weight_le_of_sublist (skip_sublist r3)
            split at h
            · next fs' r4 hf =>
              obtain ⟨rfl, rfl⟩ := Prod.mk.inj (Except.ok.inj h)
              have h2 := ih.2.2 _ _ _ hf
              simp only [weighFields, weight_cons] at hsk hsk2 ⊢
              omega
            · simp at h
          · simp [stop] at h
      · simp [stop] at h
  · simp [stop] at h

theorem bounded (fuel : Nat) : Bounded fuel := by
  induction fuel with
  | zero =>
    refine ⟨?_, ?_, ?_⟩ <;> intro cs x rest h <;> simp [value, items, members, stop] at h
  | succ fuel ih =>
    exact ⟨fun _ _ _ => value_bound_succ ih, fun _ _ _ => items_bound_succ ih,
      fun _ _ _ => members_bound_succ ih⟩

/-- A value is no heavier than the text it was read from. -/
theorem weigh_of_readChars {text : List Char} {v : Json} (h : readChars text = .ok v) :
    weigh v ≤ weight text := by
  unfold readChars at h
  dsimp only at h
  split at h
  · simp at h
  · split at h
    · simp at h
    · next v' rest hv =>
      have h1 := (bounded _).1 _ _ _ hv
      have h2 := weight_le_of_sublist (skip_sublist text)
      split at h
      · obtain rfl := Except.ok.inj h
        omega
      · simp at h

end ChainTypings.Json
