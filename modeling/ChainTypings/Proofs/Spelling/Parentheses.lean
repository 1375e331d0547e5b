import ChainTypings.Proofs.Spelling.Naming

/-!
# Redundant parentheses

In a phrase a tuple of one element is an element in parentheses, and `Phrase.stripped` leaves all
such parentheses out. The normal spelling does not always do so. It drops parentheses only around
what shows neither a comma nor a parenthesis, however deep; and it drops them last, so that a byte
in parentheses is no byte yet when sequences of bytes get their name.

A phrase is `Transparent` if neither happens in it. Then, and only then, its normal spelling is that
of the phrase without the parentheses (`bared_aliased_eq_iff`).
-/

namespace ChainTypings.Spelling

open Text

namespace Phrase

/-! ## Without parentheses around one element -/

/-- The element itself if it is the only one, else the tuple. -/
def enclosing : List Phrase → Phrase
  | [t] => t
  | ts => tuple ts

mutual

/-- The phrase without parentheses around one element. -/
def stripped : Phrase → Phrase
  | name w => name w
  | tuple ts => enclosing (strippedEach ts)
  | array t n => array (stripped t) n
  | slice t => slice (stripped t)
  | generic h ts => generic h (strippedEach ts)

/-- Several phrases without parentheses around one element. -/
def strippedEach : List Phrase → List Phrase
  | [] => []
  | t :: ts => stripped t :: strippedEach ts

end

theorem strippedEach_eq_map (ts : List Phrase) : strippedEach ts = ts.map stripped := by
  induction ts with
  | nil => rfl
  | cons t ts ih => rw [strippedEach, ih, List.map_cons]

theorem enclosing_of_length {ts : List Phrase} (h : ts.length ≠ 1) : enclosing ts = tuple ts := by
  match ts, h with
  | [], _ => rfl
  | _ :: _ :: _, _ => rfl

theorem stripped_parentheses (t : Phrase) : (tuple [t]).stripped = t.stripped := rfl

theorem stripped_tuple {ts : List Phrase} (h : ts.length ≠ 1) :
    (tuple ts).stripped = tuple (ts.map stripped) := by
  rw [stripped, strippedEach_eq_map, enclosing_of_length (by simpa using h)]

/-- A tuple of one element, or any other tuple. -/
theorem elements_cases {motive : List Phrase → Prop} (one : ∀ t, motive [t])
    (other : ∀ ts, ts.length ≠ 1 → motive ts) : ∀ ts, motive ts
  | [] => other [] (by decide)
  | [t] => one t
  | t :: u :: ts => other (t :: u :: ts) (by simp)

/-- Parentheses around one element hide no box. -/
theorem Unboxed.of_stripped {t : Phrase} (h : t.stripped.Unboxed) : t.Unboxed := by
  induction t with
  | name w => exact .name w
  | tuple ts ih =>
    refine .tuple ?_
    cases ts using elements_cases with
    | one t => simpa using ih t (by simp) h
    | other ts hn =>
      rw [stripped_tuple hn] at h
      cases h with
      | tuple hts => exact fun t ht => ih t ht (hts _ (List.mem_map_of_mem ht))
  | array t n ih =>
    cases h with
    | array _ ht => exact .array n (ih ht)
  | slice t ih =>
    cases h with
    | slice ht => exact .slice (ih ht)
  | generic g ts ih =>
    rw [stripped, strippedEach_eq_map] at h
    cases h with
    | generic hb hts => exact .generic hb fun t ht => ih t ht (hts _ (List.mem_map_of_mem ht))

/-! ## Names for texts and byte sequences, form by form -/

theorem renamed_eq_iff {w v : AsciiWord} (hv : v.isText = false) (ht : v ≠ .text) :
    w.renamed = v ↔ w = v := by
  rw [AsciiWord.renamed]
  split
  · next hw =>
    constructor
    · exact fun h => absurd h.symm ht
    · rintro rfl
      rw [hw] at hv
      cases hv
  · rfl

theorem isByte_renamed (t : Phrase) : t.renamed.isByte = t.isByte := by
  cases t with
  | name w =>
    have h : w.renamed = .u8 ↔ w = .u8 := renamed_eq_iff rfl (by decide)
    simp only [renamed, isByte, h]
  | _ => rfl

theorem areByte_renamedEach (ts : List Phrase) : areByte (renamedEach ts) = areByte ts := by
  match ts with
  | [] => rfl
  | [t] => exact t.isByte_renamed
  | _ :: _ :: _ => rfl

theorem packedEach_renamedEach (ts : List Phrase) :
    packedEach (renamedEach ts) = ts.map aliased := by
  rw [renamedEach_eq_map, packedEach_eq_map, List.map_map]
  rfl

theorem aliased_tuple (ts : List Phrase) : (tuple ts).aliased = tuple (ts.map aliased) := by
  rw [aliased, renamed, packed, packedEach_renamedEach]

theorem aliased_array (t : Phrase) (n : Numeral) : (array t n).aliased = array t.aliased n := rfl

theorem aliased_slice (t : Phrase) :
    (slice t).aliased = if t.isByte then name .bytes else slice t.aliased := by
  rw [aliased, renamed, packed, isByte_renamed]
  rfl

theorem aliased_generic (g : AsciiWord) (ts : List Phrase) :
    (generic g ts).aliased =
      if g = .vec ∧ areByte ts then name .bytes else generic g.renamed (ts.map aliased) := by
  have h : g.renamed = .vec ↔ g = .vec := renamed_eq_iff rfl (by decide)
  rw [aliased, renamed, packed, packedEach_renamedEach, areByte_renamedEach]
  simp only [h]

/-- No name is put in for a byte or taken for one. -/
theorem isByte_aliased (t : Phrase) : t.aliased.isByte = t.isByte := by
  cases t with
  | name w => exact isByte_renamed (name w)
  | tuple ts => rw [aliased_tuple]; rfl
  | array t n => rfl
  | slice t => rw [aliased_slice]; split <;> rfl
  | generic g ts => rw [aliased_generic]; split <;> rfl

theorem areByte_aliased (ts : List Phrase) : areByte (ts.map aliased) = areByte ts := by
  match ts with
  | [] => rfl
  | [t] => exact t.isByte_aliased
  | _ :: _ :: _ => rfl

theorem renamed_renamed (w : AsciiWord) : w.renamed.renamed = w.renamed := by
  cases hw : w.isText with
  | true =>
    have htext : w.renamed = .text := if_pos hw
    rw [htext]
    rfl
  | false => rw [AsciiWord.renamed_eq_self hw, AsciiWord.renamed_eq_self hw]

/-- Names put in for texts and byte sequences stay. -/
theorem aliased_aliased (t : Phrase) : t.aliased.aliased = t.aliased := by
  have each : ∀ {ts : List Phrase}, (∀ t ∈ ts, t.aliased.aliased = t.aliased) →
      (ts.map aliased).map aliased = ts.map aliased := by
    intro ts ih
    rw [List.map_map]
    exact List.map_congr_left ih
  induction t with
  | name w => exact congrArg name (renamed_renamed w)
  | tuple ts ih => rw [aliased_tuple, aliased_tuple, each ih]
  | array t n ih => rw [aliased_array, aliased_array, ih]
  | slice t ih =>
    rw [aliased_slice]
    by_cases hbyte : t.isByte = true
    · rw [if_pos hbyte]
      rfl
    · rw [if_neg hbyte, aliased_slice, isByte_aliased, if_neg hbyte, ih]
  | generic g ts ih =>
    rw [aliased_generic]
    by_cases hbytes : g = .vec ∧ areByte ts = true
    · rw [if_pos hbytes]
      rfl
    · have hvec : g.renamed = .vec ↔ g = .vec := renamed_eq_iff rfl (by decide)
      have hagain : ¬(g.renamed = .vec ∧ areByte (ts.map aliased) = true) := by
        rwa [hvec, areByte_aliased]
      rw [if_neg hbytes, aliased_generic, if_neg hagain, renamed_renamed, each ih]

/-- Names put in for texts and byte sequences hide no comma and no parenthesis. -/
theorem isFlat_aliased (t : Phrase) : t.aliased.isFlat = t.isFlat := by
  induction t with
  | name w => rw [isFlat_name]; exact isFlat_name _
  | tuple ts => rw [aliased_tuple, isFlat_tuple, isFlat_tuple]
  | array t n ih => rw [aliased_array, isFlat_array, isFlat_array, ih]
  | slice t ih =>
    rw [aliased_slice]
    split
    · next hbyte =>
      obtain rfl := eq_of_isByte hbyte
      rfl
    · rw [isFlat_slice, isFlat_slice, ih]
  | generic g ts ih =>
    rw [aliased_generic]
    split
    · next hbytes =>
      obtain rfl := eq_of_areByte hbytes.2
      rw [hbytes.1]
      rfl
    · rw [isFlat_generic, isFlat_generic]
      -- a comma shows with the names and without them
      match ts, ih with
      | [], _ => rfl
      | [t], ih => simpa [isFlat] using ih t (by simp)
      | t :: u :: us, _ => simp [isElementChar]

theorem Unboxed.of_aliased {t : Phrase} (h : t.aliased.Unboxed) : t.Unboxed := by
  induction t with
  | name w => exact .name w
  | tuple ts ih =>
    rw [aliased_tuple] at h
    cases h with
    | tuple hts => exact .tuple fun t ht => ih t ht (hts _ (List.mem_map_of_mem ht))
  | array t n ih =>
    cases h with
    | array _ ht => exact .array n (ih ht)
  | slice t ih =>
    rw [aliased_slice] at h
    split at h
    · next hbyte =>
      obtain rfl := eq_of_isByte hbyte
      exact .slice (.name _)
    · cases h with
      | slice ht => exact .slice (ih ht)
  | generic g ts ih =>
    rw [aliased_generic] at h
    split at h
    · next hbytes =>
      obtain ⟨rfl, hbytes⟩ := hbytes
      obtain rfl := eq_of_areByte hbytes
      exact .generic (by decide) (by simpa using .name .u8)
    · cases h with
      | generic hb hts =>
        refine .generic ?_ fun t ht => ih t ht (hts _ (List.mem_map_of_mem ht))
        rintro rfl
        exact hb rfl

/-! ## Parentheses that make no difference -/

/-- Every element in parentheses is flat once the parentheses in it are gone, and no vector and no
slice is around a byte in parentheses. -/
inductive Transparent : Phrase → Prop
  | name (w) : Transparent (.name w)
  | parentheses {t} : t.stripped.isFlat = true → Transparent t → Transparent (.tuple [t])
  | tuple {ts} : ts.length ≠ 1 → (∀ t ∈ ts, Transparent t) → Transparent (.tuple ts)
  | array {t} (n) : Transparent t → Transparent (.array t n)
  | slice {t} : (t.stripped.isByte = true → t.isByte = true) → Transparent t →
      Transparent (.slice t)
  | generic {g ts} : (g = .vec → areByte (ts.map stripped) = true → areByte ts = true) →
      (∀ t ∈ ts, Transparent t) → Transparent (.generic g ts)

/-- Without parentheses around one element there are none on the outside, whatever is renamed. -/
theorem aliased_stripped_ne (t u : Phrase) : t.stripped.aliased ≠ .tuple [u] := by
  induction t with
  | name w => exact fun h => Phrase.noConfusion h
  | tuple ts ih =>
    cases ts using elements_cases with
    | one t => exact ih t (by simp)
    | other ts hn =>
      rw [stripped_tuple hn, aliased_tuple]
      intro h
      exact hn (by simpa using congrArg List.length (tuple.inj h))
  | array t n => exact fun h => Phrase.noConfusion h
  | slice t =>
    rw [stripped, aliased_slice]
    split <;> exact fun h => Phrase.noConfusion h
  | generic g ts =>
    rw [stripped, aliased_generic]
    split <;> exact fun h => Phrase.noConfusion h

theorem isByte_stripped {t : Phrase} (h : t.isByte = true) : t.stripped.isByte = true := by
  rw [eq_of_isByte h]
  rfl

theorem areByte_stripped {ts : List Phrase} (h : areByte ts = true) :
    areByte (ts.map stripped) = true := by
  rw [eq_of_areByte h]
  rfl

theorem bared_tuple {ts : List Phrase} (h : ts.length ≠ 1) :
    (tuple ts).bared = tuple (ts.map bared) := by
  rw [bared, baredEach_eq_map, loneFlat?_eq_none (by simpa using h), Option.getD_none]

theorem bared_parentheses (t : Phrase) :
    (tuple [t]).bared = if t.bared.isFlat then t.bared else tuple [t.bared] := by
  rw [bared, baredEach, baredEach, loneFlat?_singleton]
  split <;> rfl

/-- The normal spelling is that of the phrase without parentheses around one element if and only
if these are transparent. -/
theorem bared_aliased_eq_iff (t : Phrase) :
    t.aliased.bared = t.stripped.aliased ↔ t.Transparent := by
  have each : ∀ {ts : List Phrase},
      (∀ t ∈ ts, (t.aliased.bared = t.stripped.aliased ↔ t.Transparent)) →
      ((ts.map aliased).map bared = (ts.map stripped).map aliased ↔ ∀ t ∈ ts, t.Transparent) := by
    intro ts ih
    rw [List.map_map, List.map_map, List.map_inj_left]
    exact forall₂_congr ih
  induction t with
  | name w => exact ⟨fun _ => .name w, fun _ => rfl⟩
  | tuple ts ih =>
    cases ts using elements_cases with
    | one t =>
      have ih := ih t (by simp)
      rw [aliased_tuple, List.map_singleton, bared_parentheses, stripped_parentheses]
      constructor
      · intro h
        split at h
        · next hflat =>
          rw [h, isFlat_aliased] at hflat
          exact .parentheses hflat (ih.1 h)
        · exact absurd h.symm (aliased_stripped_ne t _)
      · rintro (_ | ⟨hflat, ht⟩ | ⟨hn, _⟩)
        · have h := ih.2 ht
          rw [h, isFlat_aliased, if_pos hflat]
        · exact absurd rfl hn
    | other ts hn =>
      rw [aliased_tuple, bared_tuple (by simpa using hn), stripped_tuple hn, aliased_tuple,
        tuple.injEq, each ih]
      constructor
      · exact .tuple hn
      · rintro (_ | ⟨_, _⟩ | ⟨_, hts⟩)
        · exact absurd rfl hn
        · exact hts
  | array t n ih =>
    rw [aliased_array, bared, stripped, aliased_array, array.injEq]
    constructor
    · exact fun h => .array n (ih.1 h.1)
    · rintro (_ | _ | _ | ⟨_, ht⟩)
      exact ⟨ih.2 ht, rfl⟩
  | slice t ih =>
    rw [aliased_slice, stripped, aliased_slice]
    by_cases hbyte : t.isByte = true
    · rw [if_pos hbyte, if_pos (isByte_stripped hbyte)]
      obtain rfl := eq_of_isByte hbyte
      exact ⟨fun _ => .slice (fun _ => rfl) (.name _), fun _ => rfl⟩
    · rw [if_neg hbyte, bared]
      by_cases hhidden : t.stripped.isByte = true
      · rw [if_pos hhidden]
        constructor
        · exact fun h => Phrase.noConfusion h
        · rintro (_ | _ | _ | _ | ⟨hshown, _⟩)
          exact absurd (hshown hhidden) hbyte
      · rw [if_neg hhidden, slice.injEq]
        constructor
        · exact fun h => .slice (fun hb => absurd hb hhidden) (ih.1 h)
        · rintro (_ | _ | _ | _ | ⟨_, ht⟩)
          exact ih.2 ht
  | generic g ts ih =>
    rw [aliased_generic, stripped, strippedEach_eq_map, aliased_generic]
    by_cases hbytes : g = .vec ∧ areByte ts = true
    · rw [if_pos hbytes, if_pos ⟨hbytes.1, areByte_stripped hbytes.2⟩]
      obtain rfl := eq_of_areByte hbytes.2
      exact ⟨fun _ => .generic (fun _ _ => rfl) (by simpa using .name .u8), fun _ => rfl⟩
    · rw [if_neg hbytes, bared, baredEach_eq_map]
      by_cases hhidden : g = .vec ∧ areByte (ts.map stripped) = true
      · rw [if_pos hhidden]
        constructor
        · exact fun h => Phrase.noConfusion h
        · rintro (_ | _ | _ | _ | _ | ⟨hshown, _⟩)
          exact absurd ⟨hhidden.1, hshown hhidden.1 hhidden.2⟩ hbytes
      · rw [if_neg hhidden, generic.injEq, each ih]
        constructor
        · exact fun h => .generic (fun hg hb => absurd ⟨hg, hb⟩ hhidden) h.2
        · rintro (_ | _ | _ | _ | _ | ⟨_, hts⟩)
          exact ⟨rfl, hts⟩

/-- Where the normal spelling leaves a name or the empty tuple, no parentheses were in its way. -/
theorem transparent_of_bared_aliased {t : Phrase}
    (h : (∃ w, t.aliased.bared = .name w) ∨ t.aliased.bared = .tuple []) : t.Transparent := by
  induction t with
  | name w => exact .name w
  | tuple ts ih =>
    cases ts using elements_cases with
    | one t =>
      rw [aliased_tuple, List.map_singleton, bared_parentheses] at h
      split at h
      · next hflat =>
        have ht := ih t (by simp) h
        rw [(bared_aliased_eq_iff t).2 ht, isFlat_aliased] at hflat
        exact .parentheses hflat ht
      · simp at h
    | other ts hn =>
      rw [aliased_tuple, bared_tuple (by simpa using hn)] at h
      obtain rfl : ts = [] := by simpa using h
      exact .tuple (by simp) (by simp)
  | array t n => simp [aliased_array, bared] at h
  | slice t =>
    rw [aliased_slice] at h
    split at h
    · next hbyte =>
      obtain rfl := eq_of_isByte hbyte
      exact .slice (fun _ => rfl) (.name _)
    · simp [bared] at h
  | generic g ts =>
    rw [aliased_generic] at h
    split at h
    · next hbytes =>
      obtain rfl := eq_of_areByte hbytes.2
      exact .generic (fun _ _ => rfl) (by simpa using .name .u8)
    · simp [bared] at h

end Phrase

end ChainTypings.Spelling
