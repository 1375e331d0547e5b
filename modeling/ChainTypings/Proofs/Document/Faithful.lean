import ChainTypings.Proofs.Document.Indexed
import Mathlib.Data.List.Induction

/-!
# The registry as an index

Shapes whose indices are integers or missing are refused as a registry exactly if one has no index
or two have the same (`faithful_or_refused`), and the fault reported is the first in their order
(`FirstFault`). Otherwise the registry is a faithful index of them (`IsIndexOf`): it lists them in
ascending order, finds each under its index and nothing under any other, and knows the names that
it was given and those that they declare. All of this is the same in whatever order the shapes are
given (`AnswersAs`).
-/

namespace ChainTypings

open Json (Key)

namespace Shape

/-- The index of the shape is an integer, or it has none. -/
def IsPlaced (s : Shape) : Prop :=
  s.head.lookupIndex = .null ∨ ∃ n, s.head.lookupIndex = .int n

/-- Both indices are integers, and the first is the lesser. -/
def PlacedBefore (s t : Shape) : Prop :=
  ∃ m n, s.head.lookupIndex = .int m ∧ t.head.lookupIndex = .int n ∧ m < n

theorem place_of_int {s : Shape} {n : Int} (h : s.head.lookupIndex = .int n) : s.place = n := by
  rw [place, h]

theorem PlacedBefore.asymm {s t : Shape} (h : s.PlacedBefore t) : ¬ t.PlacedBefore s := by
  obtain ⟨m, n, hs, ht, hlt⟩ := h
  rintro ⟨n', m', ht', hs', hlt'⟩
  obtain rfl := Json.int.inj (hs.symm.trans hs')
  obtain rfl := Json.int.inj (ht.symm.trans ht')
  exact Int.lt_asymm hlt hlt'

end Shape

/-- The declared name is the text of the annotation, unless it is empty. -/
theorem Head.alias?_eq_some_iff {h : Head} {n : String} :
    h.alias? = some n ↔ n ≠ "" ∧ h.lookupName = .str n := by
  rw [alias?]
  cases h.lookupName with
  | str s =>
    rw [Json.label?, Json.str.injEq]
    by_cases hs : s.isEmpty = true
    · rw [if_pos hs, String.isEmpty_iff.1 hs]
      constructor
      · intro h
        cases h
      · rintro ⟨hn, h⟩
        exact absurd h.symm hn
    · have hne : s ≠ "" := fun h => hs (String.isEmpty_iff.2 h)
      rw [if_neg hs, Option.some_inj]
      constructor
      · rintro rfl
        exact ⟨hne, rfl⟩
      · exact And.right
  | _ => simp [Json.label?]

namespace Registry

variable {shapes shapes' front : List Shape} {s : Shape} {e : RegistryError} {r r' : Registry}

/-! ## Faults -/

/-- A shape has no index, or two at different places of the list have the same. -/
def Faulty (shapes : List Shape) : Prop :=
  (∃ s ∈ shapes, s.head.lookupIndex = .null) ∨
    ∃ s t n, [s, t].Sublist shapes ∧ s.head.lookupIndex = .int n ∧ t.head.lookupIndex = .int n

/-- What is at fault with a shape behind others: it has no index, or one of them has the same. -/
inductive AtFault (front : List Shape) (s : Shape) : RegistryError → Prop
  | noIndex : s.head.lookupIndex = .null → AtFault front s (.noIndex s.head.type)
  | duplicateIndex {t : Shape} {n : Int} : t ∈ front → t.head.lookupIndex = .int n →
      s.head.lookupIndex = .int n → AtFault front s (.duplicateIndex (.int n))

/-- What is at fault with the first of the shapes with which anything is. -/
def FirstFault (shapes : List Shape) (e : RegistryError) : Prop :=
  ∃ front s back, shapes = front ++ s :: back ∧ AreIndexed front ∧ AtFault front s e

/-- Shapes whose indices are integers have distinct ones if there is no fault. -/
theorem areIndexed_iff (h : ∀ s ∈ shapes, s.IsPlaced) : AreIndexed shapes ↔ ¬ Faulty shapes := by
  constructor
  · rintro hindexed (⟨s, hs, hnull⟩ | ⟨s, t, n, hsub, hs, ht⟩)
    · cases hnull.symm.trans (hindexed.integer s hs)
    · have hplaces := hindexed.distinct.sublist (hsub.map Shape.place)
      simp [Shape.place_of_int hs, Shape.place_of_int ht] at hplaces
  · intro hfaulty
    have hint : ∀ s ∈ shapes, s.head.lookupIndex = .int s.place := by
      intro s hs
      rcases h s hs with hnull | ⟨n, hn⟩
      · exact absurd (.inl ⟨s, hs, hnull⟩) hfaulty
      · rw [hn, Shape.place_of_int hn]
    refine ⟨hint, List.nodup_iff_sublist.2 fun n hsub => ?_⟩
    obtain ⟨pair, hpair, heq⟩ := List.sublist_map_iff.1 hsub
    obtain ⟨s, t, rfl⟩ := List.length_eq_two.1 (by simpa using (congrArg List.length heq).symm)
    simp only [List.map_cons, List.map_nil, List.cons.injEq, and_true] at heq
    have hs := hint s (hpair.subset (by simp))
    have ht := hint t (hpair.subset (by simp))
    rw [← heq.1] at hs
    rw [← heq.2] at ht
    exact hfaulty (.inr ⟨s, t, n, hpair, hs, ht⟩)

/-- Behind shapes with distinct indices a shape has an index of its own or is at fault. -/
theorem concat_or_atFault (hfront : AreIndexed front) (hs : s.IsPlaced) :
    AreIndexed (front ++ [s]) ∨ ∃ e, AtFault front s e := by
  rcases hs with hnull | ⟨n, hn⟩
  · exact .inr ⟨_, .noIndex hnull⟩
  · by_cases htaken : ∃ t ∈ front, t.head.lookupIndex = .int n
    · obtain ⟨t, ht, htn⟩ := htaken
      exact .inr ⟨_, .duplicateIndex ht htn hn⟩
    · obtain rfl := Shape.place_of_int hn
      refine .inl (hfront.concat hn fun t ht hplace => htaken ⟨t, ht, ?_⟩)
      rw [hfront.integer t ht, hplace]

/-- Of shapes that do not all have distinct indices one is the first at fault. -/
theorem exists_firstFault (h : ∀ s ∈ shapes, s.IsPlaced) (hindexed : ¬ AreIndexed shapes) :
    ∃ e, FirstFault shapes e := by
  -- from the end of the list: the last shape is at fault first if those in front are not
  induction shapes using List.reverseRecOn with
  | nil => exact absurd ⟨by simp, List.nodup_nil⟩ hindexed
  | append_singleton front s ih =>
    by_cases hfront : AreIndexed front
    · obtain ⟨e, he⟩ := (concat_or_atFault hfront (h s (by simp))).resolve_left hindexed
      exact ⟨e, front, s, [], rfl, hfront, he⟩
    · obtain ⟨e, before, t, back, rfl, hbefore, he⟩ :=
        ih (fun t ht => h t (List.mem_append_left _ ht)) hfront
      exact ⟨e, before, t, back ++ [s], by simp, hbefore, he⟩

/-- Adding a shape at fault reports its fault, whatever follows. -/
theorem addEntries_of_atFault (h : AtFault front s e) (back : List Shape) :
    addEntries (front.map entryOf) (s :: back) = .error e := by
  rw [addEntries]
  cases h with
  | noIndex hnull => simp only [hnull, Json.key?]
  | @duplicateIndex t n ht htn hn =>
    have htaken : (find? (front.map entryOf) (.number n 0)).isSome = true := by
      rw [find?_map_entryOf, List.find?_isSome]
      exact ⟨t, ht, by rw [Key.same_int, Shape.place_of_int htn, decide_eq_true rfl]⟩
    obtain ⟨u, hu⟩ := Option.isSome_iff_exists.1 htaken
    simp only [hn, Json.key?, hu]

/-- Shapes are refused for the first fault among them. -/
theorem ofShapes_of_firstFault (h : FirstFault shapes e) (known : List String) :
    ofShapes shapes known = .error e := by
  obtain ⟨front, s, back, rfl, hfront, hfault⟩ := h
  have hadd := addEntries_append (show AreIndexed ([] ++ front) from hfront) (s :: back)
  rw [List.nil_append, addEntries_of_atFault hfault] at hadd
  rw [ofShapes, show addEntries [] (front ++ s :: back) = .error e from hadd]

/-! ## Look-ups -/

/-- Each shape is found under its index. -/
theorem lookup_of_mem (h : AreIndexed shapes) (hr : r.entries = shapes.map entryOf)
    (hs : s ∈ shapes) : Scope.lookup r s.head.lookupIndex = .ok s := by
  have hfound : find? r.entries (.number s.place 0) = some s := by
    rw [hr, find?_eq_some_iff h, Key.same_int]
    exact ⟨hs, decide_eq_true rfl⟩
  simp only [h.integer s hs, Scope.lookup, Json.key?, hfound]

/-- Nothing is found under an index that no shape has. -/
theorem lookup_of_forall_ne (h : AreIndexed shapes) (hr : r.entries = shapes.map entryOf) {n : Int}
    (hn : ∀ s ∈ shapes, s.head.lookupIndex ≠ .int n) :
    Scope.lookup r (.int n) = .error (.unknownIndex (.int n)) := by
  have hfound : find? r.entries (.number n 0) = none := by
    rw [hr, Option.eq_none_iff_forall_ne_some]
    intro s hs
    obtain ⟨hmem, hsame⟩ := (find?_eq_some_iff h).1 hs
    rw [Key.same_int] at hsame
    exact hn s hmem (of_decide_eq_true hsame ▸ h.integer s hmem)
  simp only [Scope.lookup, Json.key?, hfound]

/-! ## The index -/

/-- The registry is an index of the shapes: it lists them in the one ascending order, has each under
its index and none under another, and knows the names of the library, the given ones and those that
the shapes declare. -/
structure IsIndexOf (r : Registry) (shapes : List Shape) (known : List String) : Prop where
  listed : ∃ ss, r.shapes? = some ss ∧ ss.Perm shapes ∧ ss.Pairwise Shape.PlacedBefore
  only : ∀ ss, ss.Perm shapes → ss.Pairwise Shape.PlacedBefore → r.shapes? = some ss
  found : ∀ s ∈ shapes, Scope.lookup r s.head.lookupIndex = .ok s
  absent : ∀ n, (∀ s ∈ shapes, s.head.lookupIndex ≠ .int n) →
    Scope.lookup r (.int n) = .error (.unknownIndex (.int n))
  knows : ∀ n, r.isKnown n = true ↔
    n ∈ Category.builtins ∨ n ∈ known ∨ n ≠ "" ∧ ∃ s ∈ shapes, s.head.lookupName = .str n

/-- Two registries answer alike: they list the same shapes in the same order, find the same under
every index and know the same names. -/
structure AnswersAs (r r' : Registry) : Prop where
  listed : r.shapes? = r'.shapes?
  alike : r.Alike r'
  knows : ∀ n, r.isKnown n = r'.isKnown n

theorem placedBefore_sorted (h : AreIndexed shapes) :
    (sorted shapes).Pairwise Shape.PlacedBefore := by
  have hsorted := h.perm (perm_sorted shapes)
  refine (ascending_sorted h).imp_of_mem fun hs ht hlt => ?_
  exact ⟨_, _, hsorted.integer _ hs, hsorted.integer _ ht, hlt⟩

/-- There is one ascending order. -/
theorem eq_sorted (h : AreIndexed shapes) {ss : List Shape} (hperm : ss.Perm shapes)
    (hascending : ss.Pairwise Shape.PlacedBefore) : ss = sorted shapes := by
  refine List.Perm.eq_of_pairwise ?_ hascending (placedBefore_sorted h)
    (hperm.trans (perm_sorted shapes).symm)
  intro a b _ _ hab hba
  exact absurd hba hab.asymm

/-- A name is known in a registry of shapes with distinct indices if it is of the library, given or
declared by one of them. -/
theorem isKnown_iff (hr : r.entries = shapes.map entryOf) {known : List String}
    (hmade : ofShapes shapes known = .ok r) (n : String) : r.isKnown n = true ↔
      n ∈ Category.builtins ∨ n ∈ known ∨ n ≠ "" ∧ ∃ s ∈ shapes, s.head.lookupName = .str n := by
  have hdeclared : (∃ e ∈ r.entries, e.2.head.alias? = some n) ↔
      n ≠ "" ∧ ∃ s ∈ shapes, s.head.lookupName = .str n := by
    simp only [hr, List.mem_map, Head.alias?_eq_some_iff]
    constructor
    · rintro ⟨_, ⟨s, hs, rfl⟩, hn, hname⟩
      exact ⟨hn, s, hs, hname⟩
    · rintro ⟨hn, s, hs, hname⟩
      exact ⟨_, ⟨s, hs, rfl⟩, hn, hname⟩
  rw [isKnown_ofShapes hmade, hdeclared, or_assoc]

theorem entries_of_areIndexed (h : AreIndexed shapes) {known : List String}
    (hmade : ofShapes shapes known = .ok r) : r.entries = shapes.map entryOf := by
  obtain rfl := Except.ok.inj ((ofShapes_eq h known).symm.trans hmade)
  rfl

/-- The registry made of shapes with distinct indices is an index of them. -/
theorem isIndexOf_of_areIndexed (h : AreIndexed shapes) {known : List String}
    (hmade : ofShapes shapes known = .ok r) : r.IsIndexOf shapes known := by
  have hr := entries_of_areIndexed h hmade
  exact
    { listed := ⟨_, shapes?_eq hr, perm_sorted shapes, placedBefore_sorted h⟩
      only := fun ss hperm hascending => by rw [shapes?_eq hr, eq_sorted h hperm hascending]
      found := fun s hs => lookup_of_mem h hr hs
      absent := fun n hn => lookup_of_forall_ne h hr hn
      knows := isKnown_iff hr hmade }

/-- Registries of the same shapes in different orders answer alike. -/
theorem answersAs_of_perm (h : AreIndexed shapes) (hperm : shapes'.Perm shapes)
    {known : List String} (hmade : ofShapes shapes known = .ok r)
    (hmade' : ofShapes shapes' known = .ok r') : r'.AnswersAs r := by
  have hr := entries_of_areIndexed h hmade
  have hr' := entries_of_areIndexed (h.perm hperm) hmade'
  refine ⟨?_, alike_of_perm h hperm hr hr', fun n => ?_⟩
  · rw [shapes?_eq hr, shapes?_eq hr', sorted_eq_of_perm h hperm]
  · rw [Bool.eq_iff_iff, isKnown_iff hr' hmade', isKnown_iff hr hmade]
    simp only [hperm.mem_iff]

/-- Shapes whose indices are integers or missing are refused if one has no index or two have the
same, in whatever order they are given, for the first fault in that order. Otherwise they make a
registry that is an index of them, and in another order one that answers alike. -/
theorem faithful_or_refused (h : ∀ s ∈ shapes, s.IsPlaced) (known : List String) :
    (Faulty shapes → ∀ shapes', shapes'.Perm shapes →
      ∃ e, ofShapes shapes' known = .error e ∧ FirstFault shapes' e) ∧
    (¬ Faulty shapes → ∃ r, ofShapes shapes known = .ok r ∧ r.IsIndexOf shapes known ∧
      ∀ shapes', shapes'.Perm shapes →
        ∃ r', ofShapes shapes' known = .ok r' ∧ r'.AnswersAs r) := by
  constructor
  · intro hfaulty shapes' hperm
    obtain ⟨e, he⟩ := exists_firstFault (fun s hs => h s (hperm.mem_iff.1 hs))
      fun hindexed => (areIndexed_iff h).1 (hindexed.perm hperm.symm) hfaulty
    exact ⟨e, ofShapes_of_firstFault he known, he⟩
  · intro hsound
    have hindexed := (areIndexed_iff h).2 hsound
    have hmade := ofShapes_eq hindexed known
    refine ⟨_, hmade, isIndexOf_of_areIndexed hindexed hmade, fun shapes' hperm => ?_⟩
    have hmade' := ofShapes_eq (hindexed.perm hperm) known
    exact ⟨_, hmade', answersAs_of_perm hindexed hperm hmade hmade'⟩

/-- Two entries of which the second has the lesser index, and an empty name. -/
def coins : List Shape :=
  [.leaf { tag := .plain, type := "u64", lookupName := .str "Balance", lookupIndex := .int 2 },
   .leaf { tag := .plain, type := "u32", lookupName := .str "", lookupIndex := .int (-1) }]

/-- Entries of which two have the same index and the last has none. -/
def disputed : List Shape :=
  [.leaf { tag := .plain, type := "u8", lookupIndex := .int 1 },
   .leaf { tag := .plain, type := "u32", lookupIndex := .int 1 },
   .leaf { tag := .plain, type := "u16" }]

/-- The registry of the two entries, with a name given beside. -/
def coinRegistry : Registry where
  entries := coins.map entryOf
  known := Category.builtins ++ ["AccountId", "Balance"]

/-- The two entries make a registry that lists the second in front. The three are refused for the
index that is given twice and, the other way round, for the one that is missing. -/
theorem faithful_or_refused_coins :
    (∀ s ∈ coins, s.IsPlaced) ∧ ¬ Faulty coins ∧
      ofShapes coins ["AccountId"] = .ok coinRegistry ∧
      coinRegistry.IsIndexOf coins ["AccountId"] ∧
      coinRegistry.shapes? = some coins.reverse ∧
      (∀ s ∈ disputed, s.IsPlaced) ∧ Faulty disputed ∧
      FirstFault disputed (.duplicateIndex (.int 1)) ∧
      FirstFault disputed.reverse (.noIndex "u16") := by
  have hcoins : ∀ s ∈ coins, s.IsPlaced := by
    simp [coins, Shape.IsPlaced, Shape.head]
  have hsound : ¬ Faulty coins := by
    refine (areIndexed_iff hcoins).1 ⟨?_, by decide⟩
    simp [coins, Shape.place, Shape.head]
  have hmade : ofShapes coins ["AccountId"] = .ok coinRegistry := rfl
  obtain ⟨r, hr, hindex, -⟩ := (faithful_or_refused hcoins ["AccountId"]).2 hsound
  obtain rfl := Except.ok.inj (hmade.symm.trans hr)
  have hlisted : coinRegistry.shapes? = some coins.reverse := by
    refine hindex.only _ (List.reverse_perm coins) ?_
    simp [coins, Shape.PlacedBefore, Shape.head]
  have hdisputed : ∀ s ∈ disputed, s.IsPlaced := by
    simp [disputed, Shape.IsPlaced, Shape.head]
  have hfaulty : Faulty disputed := by
    refine .inl ⟨.leaf { tag := .plain, type := "u16" }, ?_, rfl⟩
    simp [disputed]
  have hrefused := (faithful_or_refused hdisputed []).1 hfaulty
  obtain ⟨e, he, hfirst⟩ := hrefused _ (List.Perm.refl disputed)
  obtain rfl : RegistryError.duplicateIndex (.int 1) = e := Except.error.inj he
  obtain ⟨e', he', hfirst'⟩ := hrefused _ (List.reverse_perm disputed)
  obtain rfl : RegistryError.noIndex "u16" = e' := Except.error.inj he'
  exact ⟨hcoins, hsound, hmade, hindex, hlisted, hdisputed, hfaulty, hfirst, hfirst'⟩

end Registry

end ChainTypings
