import ChainTypings.Proofs.Document.Declaring
import ChainTypings.Proofs.Render.Given
import ChainTypings.Proofs.Text.Words
import Mathlib.Data.List.Nodup

/-!
# The keys of members

The keys of a declaration are made of the names beneath its entry: those of fields in camel case, or
their places, and those of variants in Pascal case behind `is` and `as`. No key is empty and no two
are the same if and only if each name holds a character of a word, no two names become one, and, of a
structure, no name becomes the place of a field without a name (`keys_apart_iff`). Names that are
spelt as usual, in snake case or Pascal case, all do.
-/

namespace ChainTypings

open Text

/-- The names of the shapes directly beneath, of those that have one. -/
def Shape.memberNames (shape : Shape) : List String := shape.children.filterMap (·.head.label?)

namespace Declaration

/-- The keys of the members. -/
def keys (d : Declaration) : List String := d.members.map Prod.fst

/-! ## Which keys members have -/

/-- The key of a field: its name in camel case, or its place. -/
def keyAt (index : Nat) : Option String → String
  | some name => camel name
  | none => Scope.placeKey index

/-- The keys of fields, the first of them at place `index`. -/
def keysFrom : Nat → List (Option String) → List String
  | _, [] => []
  | index, label :: labels => keyAt index label :: keysFrom (index + 1) labels

/-- The keys of a variant: one that tells whether it is the one, and one if it holds something. -/
def variantKeys (name : String) (holds : Bool) : List String :=
  ("is" ++ name) :: if holds then ["as" ++ name] else []

variable {s : Scope} {shape : Shape}

theorem fieldKey_eq (index : Nat) (h : Head) : fieldKey index h = keyAt index h.label? := by
  unfold fieldKey keyAt
  cases h.label? <;> rfl

theorem keys_of_fields {index : Nat} {ps : List Part} {members : List (String × MemberType)}
    (h : (fields s index ps).outcome = .ok members) :
    members.map Prod.fst = keysFrom index (ps.map (·.head.label?)) := by
  induction ps generalizing index members with
  | nil =>
    obtain rfl := Except.ok.inj h
    rfl
  | cons p ps ih =>
    obtain ⟨_, _, h⟩ := Trail.ok_andThen.1 h
    obtain ⟨rest, hrest, rfl⟩ := Trail.ok_map.1 h
    rw [List.map_cons, List.map_cons, keysFrom, ih hrest, fieldKey_eq]

/-- The variants of an enumeration that is declared all have names. -/
theorem keys_of_variantMembers {ps : List Part} {members : List (String × MemberType)}
    (h : (variantMembers s shape ps).outcome = .ok members) :
    ∃ vs : List (String × Bool), ps.map (·.head.label?) = vs.map (some ·.1) ∧
      members.map Prod.fst = vs.flatMap fun v => variantKeys (pascal v.1) v.2 := by
  induction ps generalizing members with
  | nil =>
    obtain rfl := Except.ok.inj h
    exact ⟨[], rfl, rfl⟩
  | cons p ps ih =>
    unfold variantMembers at h
    split at h
    · cases h
    · next name hname =>
      -- whatever the variant holds, its keys stand in front of those of the others
      have joined (holds : Bool) {held rest : List (String × MemberType)}
          (hheld : held.map Prod.fst = if holds then ["as" ++ pascal name] else [])
          (hrest : (variantMembers s shape ps).outcome = .ok rest) :
          ∃ vs : List (String × Bool), (p :: ps).map (·.head.label?) = vs.map (some ·.1) ∧
            (("is" ++ pascal name, MemberType.boolean) :: held ++ rest).map Prod.fst =
              vs.flatMap fun v => variantKeys (pascal v.1) v.2 := by
        obtain ⟨vs, hlabels, hkeys⟩ := ih hrest
        refine ⟨(name, holds) :: vs, by rw [List.map_cons, List.map_cons, hname, hlabels], ?_⟩
        rw [List.flatMap_cons, variantKeys, List.map_append, List.map_cons, hheld, hkeys]
      dsimp only at h
      split at h
      · obtain ⟨held, hheld, h⟩ := Trail.ok_andThen.1 h
        obtain rfl := Except.ok.inj hheld
        obtain ⟨rest, hrest, rfl⟩ := Trail.ok_map.1 h
        exact joined false rfl hrest
      · obtain ⟨type, _, h⟩ := Trail.ok_andThen.1 h
        obtain ⟨held, hheld, h⟩ := Trail.ok_andThen.1 h
        obtain rfl := Except.ok.inj hheld
        obtain ⟨rest, hrest, rfl⟩ := Trail.ok_map.1 h
        exact joined true rfl hrest

/-! ## Names that stay apart -/

/-- Something is left of each name, and no two names become one. -/
structure NamesApart (convert : String → String) (names : List String) : Prop where
  kept : ∀ name ∈ names, ∃ c ∈ name.toList, isWordGap c = false
  distinct : names.Pairwise fun m n => convert m ≠ convert n

/-- The names of fields stay apart, also from the places of fields that have none. -/
structure FieldsApart (shape : Shape) : Prop where
  names : NamesApart camel shape.memberNames
  places : ∀ i c, shape.children[i]? = some c → c.head.label? = none →
    ∀ name ∈ shape.memberNames, camel name ≠ Scope.placeKey i

theorem camel_eq_empty_iff {name : String} :
    camel name = "" ↔ ∀ c ∈ name.toList, isWordGap c = true := by
  rw [camel, String.ofList_eq_empty_iff, camelCase_eq_nil_iff]

theorem pascal_eq_empty_iff {name : String} :
    pascal name = "" ↔ ∀ c ∈ name.toList, isWordGap c = true := by
  rw [pascal, String.ofList_eq_empty_iff, pascalCase_eq_nil_iff]

theorem placeKey_ne_empty (index : Nat) : Scope.placeKey index ≠ "" := by
  intro h
  have := congrArg String.length h
  rw [Scope.placeKey, String.length_append] at this
  exact absurd this (by simp)

theorem placeKey_injective {i j : Nat} (h : Scope.placeKey i = Scope.placeKey j) : i = j := by
  have hdigits : Nat.toDigits 10 i = Nat.toDigits 10 j := by
    simpa [Scope.placeKey] using congrArg String.toList h
  have hvalue := congrArg (Nat.ofDigitChars 10 · 0) hdigits
  simpa only [Nat.ofDigitChars_ten_toDigits] using hvalue

/-! ## Fields -/

/-- The names among labels. -/
def named (labels : List (Option String)) : List String := labels.filterMap id

@[simp] theorem named_none (labels : List (Option String)) : named (none :: labels) = named labels :=
  rfl

@[simp] theorem named_some (name : String) (labels : List (Option String)) :
    named (some name :: labels) = name :: named labels := rfl

/-- What holds of a place without a name: it is the first, or it is one of those behind it. -/
theorem exists_place_cons {label : Option String} {labels : List (Option String)} {p : Nat → Prop} :
    (∃ i, (label :: labels)[i]? = some none ∧ p i) ↔
      (label = none ∧ p 0) ∨ ∃ i, labels[i]? = some none ∧ p (i + 1) := by
  rw [← Nat.or_exists_add_one]
  simp

theorem mem_keysFrom {index : Nat} {labels : List (Option String)} {key : String} :
    key ∈ keysFrom index labels ↔ (∃ name ∈ named labels, camel name = key) ∨
      ∃ i, labels[i]? = some none ∧ Scope.placeKey (index + i) = key := by
  induction labels generalizing index with
  | nil => simp [keysFrom, named]
  | cons label labels ih =>
    have hnext (i : Nat) : index + 1 + i = index + (i + 1) := by omega
    rw [keysFrom, List.mem_cons, ih, exists_place_cons, eq_comm]
    simp only [hnext]
    cases label with
    | none =>
      rw [named_none, or_left_comm]
      simp [keyAt]
    | some name => simp [keyAt, or_assoc]

/-- The keys of fields are not the same if their names stay apart, from each other and from the
places of the fields that have none: places are never the same. -/
theorem nodup_keysFrom {index : Nat} {labels : List (Option String)} :
    (keysFrom index labels).Nodup ↔
      (named labels).Pairwise (fun m n => camel m ≠ camel n) ∧
        ¬∃ i, labels[i]? = some none ∧ ∃ name ∈ named labels,
          camel name = Scope.placeKey (index + i) := by
  induction labels generalizing index with
  | nil => simp [keysFrom, named]
  | cons label labels ih =>
    have hnext (i : Nat) : index + 1 + i = index + (i + 1) := by omega
    rw [keysFrom, List.nodup_cons, mem_keysFrom, ih, exists_place_cons]
    simp only [hnext]
    cases label with
    | none =>
      -- the place is none of those behind it
      have hplace : ¬∃ i, labels[i]? = some none ∧
          Scope.placeKey (index + (i + 1)) = Scope.placeKey index := fun ⟨i, _, hi⟩ => by
        have := placeKey_injective hi
        omega
      simp only [keyAt, hplace, or_false, named_none, true_and, Nat.add_zero, not_or]
      tauto
    | some name =>
      have hnames : (¬∃ n ∈ named labels, camel n = camel name) ↔
          ∀ n ∈ named labels, camel name ≠ camel n := by
        simp only [not_exists, not_and, ne_comm, ne_eq]
      have hplaces : (∃ i, labels[i]? = some none ∧ ∃ n ∈ name :: named labels,
            camel n = Scope.placeKey (index + (i + 1))) ↔
          (∃ i, labels[i]? = some none ∧ Scope.placeKey (index + (i + 1)) = camel name) ∨
            ∃ i, labels[i]? = some none ∧ ∃ n ∈ named labels,
              camel n = Scope.placeKey (index + (i + 1)) := by
        simp only [List.exists_mem_cons_iff, and_or_left, exists_or, eq_comm]
      simp only [keyAt, named_some, List.pairwise_cons, reduceCtorEq, false_and, false_or, hplaces,
        not_or, hnames]
      tauto

/-- The keys of fields, none empty and no two the same, if and only if the names stay apart. -/
theorem keysFrom_apart_iff {labels : List (Option String)} :
    ((∀ key ∈ keysFrom 0 labels, key ≠ "") ∧ (keysFrom 0 labels).Nodup) ↔
      NamesApart camel (named labels) ∧ ¬∃ i, labels[i]? = some none ∧ ∃ name ∈ named labels,
        camel name = Scope.placeKey i := by
  have hkept : (∀ key ∈ keysFrom 0 labels, key ≠ "") ↔
      ∀ name ∈ named labels, ∃ c ∈ name.toList, isWordGap c = false := by
    simp only [mem_keysFrom, or_imp, forall_and, forall_exists_index, and_imp,
      forall_apply_eq_imp_iff₂, ne_eq, placeKey_ne_empty, camel_eq_empty_iff]
    simp
  rw [hkept, nodup_keysFrom]
  simp only [Nat.zero_add]
  exact ⟨fun ⟨h₁, h₂, h₃⟩ => ⟨⟨h₁, h₂⟩, h₃⟩, fun ⟨⟨h₁, h₂⟩, h₃⟩ => ⟨h₁, h₂, h₃⟩⟩

/-! ## Variants -/

theorem is_append_ne_as_append (m n : String) : "is" ++ m ≠ "as" ++ n := fun h => by
  simpa using congrArg (·.toList.head?) h

theorem mem_variantKeys {name key : String} {holds : Bool} :
    key ∈ variantKeys name holds ↔ key = "is" ++ name ∨ holds = true ∧ key = "as" ++ name := by
  cases holds <;> simp [variantKeys]

theorem nodup_variantKeys (name : String) (holds : Bool) : (variantKeys name holds).Nodup := by
  cases holds <;> simp [variantKeys]

/-- Two variants share a key if their names are the same. -/
theorem disjoint_variantKeys_iff {m n : String} {holds holds' : Bool} :
    (variantKeys m holds).Disjoint (variantKeys n holds') ↔ m ≠ n := by
  constructor
  · rintro h rfl
    exact h (mem_variantKeys.2 (.inl rfl)) (mem_variantKeys.2 (.inl rfl))
  · intro hne key hm hn
    rcases mem_variantKeys.1 hm with rfl | ⟨-, rfl⟩ <;> rcases mem_variantKeys.1 hn with h | ⟨-, h⟩
    · exact hne ((String.append_right_inj "is").1 h)
    · exact is_append_ne_as_append m n h
    · exact is_append_ne_as_append n m h.symm
    · exact hne ((String.append_right_inj "as").1 h)

theorem pascal_ne_empty_iff {name : String} :
    pascal name ≠ "" ↔ ∃ c ∈ name.toList, isWordGap c = false := by
  simp [pascal_eq_empty_iff]

/-- No key is empty behind its prefix if something is left of each name. -/
theorem variantKeys_kept_iff {vs : List (String × Bool)} :
    (∀ v ∈ vs, ∀ key ∈ variantKeys (pascal v.1) v.2, key ≠ "is" ∧ key ≠ "as") ↔
      ∀ name ∈ vs.map Prod.fst, ∃ c ∈ name.toList, isWordGap c = false := by
  rw [List.forall_mem_map]
  refine forall₂_congr fun v _ => ?_
  rw [← pascal_ne_empty_iff]
  have hempty (pre : String) : pre ++ "" = pre := String.append_empty
  constructor
  · intro h hname
    refine (h _ (mem_variantKeys.2 (.inl rfl))).1 ?_
    rw [hname, hempty]
  · intro hname key hkey
    rcases mem_variantKeys.1 hkey with rfl | ⟨-, rfl⟩
    · refine ⟨fun h => hname ?_, fun h => is_append_ne_as_append _ "" (h.trans (hempty "as").symm)⟩
      exact (String.append_right_inj "is").1 (h.trans (hempty "is").symm)
    · refine ⟨fun h => is_append_ne_as_append "" _ ((hempty "is").trans h.symm), fun h => hname ?_⟩
      exact (String.append_right_inj "as").1 (h.trans (hempty "as").symm)

/-- No key comes twice if the names stay apart; the key of the union is none of the others. -/
theorem nodup_variantKeys_iff {vs : List (String × Bool)} :
    ((vs.flatMap fun v => variantKeys (pascal v.1) v.2) ++ ["type"]).Nodup ↔
      (vs.map Prod.fst).Pairwise fun m n => pascal m ≠ pascal n := by
  have htype : ∀ v ∈ vs, "type" ∉ variantKeys (pascal v.1) v.2 := by
    intro v _ hmem
    rcases mem_variantKeys.1 hmem with h | ⟨-, h⟩
    · simpa using congrArg (·.toList.head?) h
    · simpa using congrArg (·.toList.head?) h
  have hunion : "type" ∉ vs.flatMap fun v => variantKeys (pascal v.1) v.2 := fun hmem => by
    obtain ⟨v, hv, hkey⟩ := List.mem_flatMap.1 hmem
    exact htype v hv hkey
  rw [← List.concat_eq_append, List.nodup_concat, and_iff_right hunion, List.nodup_flatMap,
    and_iff_right fun v _ => nodup_variantKeys _ _, List.pairwise_map]
  exact List.Pairwise.iff fun v w => disjoint_variantKeys_iff

/-- The keys of variants and the key of their union, none empty behind its prefix and no two the
same, if and only if the names stay apart. -/
theorem variantKeys_apart_iff {vs : List (String × Bool)} :
    let keys := (vs.flatMap fun v => variantKeys (pascal v.1) v.2) ++ ["type"]
    ((∀ key ∈ keys, key ≠ "is" ∧ key ≠ "as") ∧ keys.Nodup) ↔ NamesApart pascal (vs.map Prod.fst) := by
  intro keys
  have hkept : (∀ key ∈ keys, key ≠ "is" ∧ key ≠ "as") ↔
      ∀ v ∈ vs, ∀ key ∈ variantKeys (pascal v.1) v.2, key ≠ "is" ∧ key ≠ "as" := by
    have hunion : "type" ≠ "is" ∧ "type" ≠ "as" := by decide
    simp only [keys, List.forall_mem_append, List.forall_mem_singleton, and_iff_left hunion,
      List.forall_mem_flatMap]
  rw [hkept, variantKeys_kept_iff, nodup_variantKeys_iff]
  exact ⟨fun ⟨h₁, h₂⟩ => ⟨h₁, h₂⟩, fun ⟨h₁, h₂⟩ => ⟨h₁, h₂⟩⟩

/-! ## Declarations -/

theorem memberNames_eq (shape : Shape) :
    shape.memberNames = named (shape.children.map (·.head.label?)) := by
  rw [Shape.memberNames, named, List.filterMap_map]
  rfl

/-- The names of fields stay apart if their labels do. -/
theorem fieldsApart_iff : FieldsApart shape ↔ NamesApart camel shape.memberNames ∧
    ¬∃ i, (shape.children.map (·.head.label?))[i]? = some none ∧
      ∃ name ∈ shape.memberNames, camel name = Scope.placeKey i := by
  have hplace (i : Nat) : (shape.children.map (·.head.label?))[i]? = some none ↔
      ∃ c, shape.children[i]? = some c ∧ c.head.label? = none := by
    rw [List.getElem?_map, Option.map_eq_some_iff]
  simp only [hplace]
  constructor
  · rintro ⟨hnames, hplaces⟩
    exact ⟨hnames, fun ⟨i, ⟨c, hc, hnone⟩, name, hname, heq⟩ => hplaces i c hc hnone name hname heq⟩
  · rintro ⟨hnames, hplaces⟩
    exact ⟨hnames, fun i c hc hnone name hname heq => hplaces ⟨i, ⟨c, hc, hnone⟩, name, hname, heq⟩⟩

/-- The parts of a shape that is declared are the shapes directly beneath it. -/
theorem ok_parts {f : List Part → Trail Declaration} {d : Declaration}
    (h : ((parts s shape).andThen f).outcome = .ok d) :
    (f (shape.children.map fun c => ⟨c.head, s.render c⟩)).outcome = .ok d := by
  rcases parts_cases s shape with hp | hp
  · rw [hp] at h
    cases h
  · rwa [hp, Trail.done_andThen] at h

theorem keys_of_struct {d : Declaration} (htag : shape.head.tag = .struct)
    (h : (ofShape s shape).outcome = .ok d) :
    d.keys = keysFrom 0 (shape.children.map (·.head.label?)) := by
  simp only [ofShape, htag] at h
  obtain ⟨_, _, h⟩ := Trail.ok_andThen.1 h
  obtain ⟨members, hmembers, rfl⟩ := Trail.ok_map.1 (ok_parts h)
  rw [keys, keys_of_fields hmembers, List.map_map]
  rfl

theorem keys_of_enum {d : Declaration} (htag : shape.head.tag = .enum)
    (h : (ofShape s shape).outcome = .ok d) :
    ∃ vs : List (String × Bool), shape.memberNames = vs.map Prod.fst ∧
      d.keys = (vs.flatMap fun v => variantKeys (pascal v.1) v.2) ++ ["type"] := by
  simp only [ofShape, htag] at h
  obtain ⟨_, _, h⟩ := Trail.ok_andThen.1 h
  obtain ⟨members, hmembers, rfl⟩ := Trail.ok_map.1 (ok_parts h)
  obtain ⟨vs, hlabels, hkeys⟩ := keys_of_variantMembers hmembers
  refine ⟨vs, ?_, by rw [keys, List.map_append, hkeys]; rfl⟩
  rw [List.map_map] at hlabels
  have hnamed : named (vs.map (some ·.1)) = vs.map Prod.fst := by
    rw [named, List.filterMap_map]
    exact congrFun List.filterMap_eq_map vs
  rw [memberNames_eq, ← hnamed, ← hlabels]
  rfl

/-! ## Names that are spelt as usual -/

/-- Names in snake case stay apart if they are not the same. -/
theorem namesApart_of_snake {names : List String} (hdistinct : names.Nodup)
    (hsnake : ∀ name ∈ names, ∃ n : SnakeName, name.toList = n.chars) : NamesApart camel names := by
  refine ⟨fun name hname => ?_, hdistinct.imp_of_mem fun {a b} ha hb hne h => hne ?_⟩
  · obtain ⟨n, hn⟩ := hsnake name hname
    by_contra hnone
    have hempty : camelCase n.chars = [] := by
      rw [camelCase_eq_nil_iff, ← hn]
      simpa using hnone
    rw [n.camelCase_chars] at hempty
    simp [SmallWord.chars] at hempty
  · obtain ⟨m, hm⟩ := hsnake a ha
    obtain ⟨n, hn⟩ := hsnake b hb
    have hcamel := String.ofList_injective h
    rw [hm, hn] at hcamel
    exact String.toList_injective (by rw [hm, hn, SnakeName.camelCase_injective hcamel])

/-- Names in Pascal case stay apart if they are not the same. -/
theorem namesApart_of_pascal {names : List String} (hdistinct : names.Nodup)
    (hpascal : ∀ name ∈ names, IsPascal name.toList) : NamesApart pascal names := by
  refine ⟨fun name hname => ?_, hdistinct.imp_of_mem fun {a b} ha hb hne h => hne ?_⟩
  · obtain ⟨c, t, hname, hc, -⟩ := hpascal name hname
    exact ⟨c, by simp [hname], isWordGap_eq_false_of_isAlphanum (by
      simp [isAlphanum_eq, hc])⟩
  · have hsame := String.ofList_injective h
    rw [pascalCase_eq_self (hpascal a ha), pascalCase_eq_self (hpascal b hb)] at hsame
    exact String.toList_injective hsame

/-- Fields whose names are spelt as usual: no two the same, in snake case, and for all or for none. -/
structure UsualFields (shape : Shape) : Prop where
  distinct : shape.memberNames.Nodup
  snake : ∀ name ∈ shape.memberNames, ∃ n : SnakeName, name.toList = n.chars
  uniform : (∀ c ∈ shape.children, c.head.label? ≠ none) ∨ shape.memberNames = []

/-- Variants whose names are spelt as usual: no two the same, in Pascal case. -/
structure UsualVariants (shape : Shape) : Prop where
  distinct : shape.memberNames.Nodup
  pascal : ∀ name ∈ shape.memberNames, IsPascal name.toList

theorem UsualFields.apart (h : UsualFields shape) : FieldsApart shape := by
  refine ⟨namesApart_of_snake h.distinct h.snake, fun i c hc hnone name hname => ?_⟩
  rcases h.uniform with hall | hempty
  · exact absurd hnone (hall c (List.mem_of_getElem? hc))
  · simp [hempty] at hname

/-- The keys of a declaration are not empty and no two are the same if and only if the names that
they are made of stay apart, and those that are spelt as usual do. Names are meant to be texts; one
of another kind reads as missing (`Json.label?`). -/
theorem keys_apart_iff {d : Declaration} (h : (ofShape s shape).outcome = .ok d) :
    (shape.head.tag = .struct →
      (((∀ key ∈ d.keys, key ≠ "") ∧ d.keys.Nodup) ↔ FieldsApart shape) ∧
      (UsualFields shape → FieldsApart shape)) ∧
    (shape.head.tag = .enum →
      (((∀ key ∈ d.keys, key ≠ "is" ∧ key ≠ "as") ∧ d.keys.Nodup) ↔
        NamesApart pascal shape.memberNames) ∧
      (UsualVariants shape → NamesApart pascal shape.memberNames)) := by
  refine ⟨fun htag => ⟨?_, UsualFields.apart⟩,
    fun htag => ⟨?_, fun h => namesApart_of_pascal h.distinct h.pascal⟩⟩
  · rw [keys_of_struct htag h, keysFrom_apart_iff, ← memberNames_eq, fieldsApart_iff]
  · obtain ⟨vs, hnames, hkeys⟩ := keys_of_enum htag h
    rw [hkeys, hnames]
    exact variantKeys_apart_iff

/-- An account whose fields are named as usual. -/
def accountInfo : Shape :=
  .group { tag := .struct, type := "AccountInfo", lookupName := .str "AccountInfo" }
    [.leaf { tag := .plain, type := "u32", name := .str "nonce" },
     .leaf { tag := .plain, type := "u64", name := .str "free_balance" },
     .leaf { tag := .plain, type := "u64", name := .str "free" }]

/-- What can happen to an account, named as usual. -/
def accountEvent : Shape :=
  .group { tag := .enum, type := "AccountEvent", lookupName := .str "AccountEvent" }
    [.leaf { tag := .null, type := "Null", name := .str "Reaped" },
     .leaf { tag := .plain, type := "u64", name := .str "ReapedDust" }]

/-- A declaration is made if its keys can be told. -/
theorem exists_of_keys {names : List String}
    (h : (ofShape s shape).outcome.toOption.map keys = some names) :
    ∃ d, (ofShape s shape).outcome = .ok d ∧ d.keys = names := by
  obtain ⟨d, hd, hkeys⟩ := Option.map_eq_some_iff.1 h
  exact ⟨d, eq_ok_of_toOption hd, hkeys⟩

theorem keys_apart_account :
    (∃ d, (ofShape ⟨{}, []⟩ accountInfo).outcome = .ok d ∧
      (∀ key ∈ d.keys, key ≠ "") ∧ d.keys.Nodup) ∧
    ∃ d, (ofShape ⟨{}, []⟩ accountEvent).outcome = .ok d ∧
      (∀ key ∈ d.keys, key ≠ "is" ∧ key ≠ "as") ∧ d.keys.Nodup := by
  have hinfo : (ofShape ⟨{}, []⟩ accountInfo).outcome.toOption.map keys =
      some ["nonce", "freeBalance", "free"] := by decide +kernel
  have hevent : (ofShape ⟨{}, []⟩ accountEvent).outcome.toOption.map keys =
      some ["isReaped", "isReapedDust", "asReapedDust", "type"] := by decide +kernel
  obtain ⟨info, hinfo, -⟩ := exists_of_keys hinfo
  obtain ⟨event, hevent, -⟩ := exists_of_keys hevent
  obtain ⟨hfields, hsnake⟩ := (keys_apart_iff hinfo).1 rfl
  obtain ⟨hvariants, hpascal⟩ := (keys_apart_iff hevent).2 rfl
  refine ⟨⟨info, hinfo, hfields.2 (hsnake ⟨by decide +kernel, ?_, .inl ?_⟩)⟩,
    event, hevent, hvariants.2 (hpascal ⟨by decide +kernel, ?_⟩)⟩
  · have hnames : accountInfo.memberNames = ["nonce", "free_balance", "free"] := rfl
    rw [hnames]
    simp only [List.forall_mem_cons]
    refine ⟨⟨⟨⟨'n', "once".toList, rfl, List.all_eq_true.1 (by decide)⟩, []⟩, rfl⟩,
      ⟨⟨⟨'f', "ree".toList, rfl, List.all_eq_true.1 (by decide)⟩,
        [⟨'b', "alance".toList, rfl, List.all_eq_true.1 (by decide)⟩]⟩, rfl⟩,
      ⟨⟨⟨'f', "ree".toList, rfl, List.all_eq_true.1 (by decide)⟩, []⟩, rfl⟩, by simp⟩
  · intro c hc
    simp only [accountInfo, Shape.children, List.mem_cons, List.not_mem_nil, or_false] at hc
    rcases hc with rfl | rfl | rfl <;> decide
  · have hnames : accountEvent.memberNames = ["Reaped", "ReapedDust"] := rfl
    rw [hnames]
    simp only [List.forall_mem_cons]
    exact ⟨⟨'R', "eaped".toList, rfl, rfl, List.all_eq_true.1 (by decide)⟩,
      ⟨'R', "eapedDust".toList, rfl, rfl, List.all_eq_true.1 (by decide)⟩, by simp⟩

/-- An account of which two fields have the same name but for its spelling, and one has a name that
is no word. -/
def mergedInfo : Shape :=
  .group { tag := .struct, type := "MergedInfo", lookupName := .str "MergedInfo" }
    [.leaf { tag := .plain, type := "u32", name := .str "free_balance" },
     .leaf { tag := .plain, type := "u64", name := .str "freeBalance" },
     .leaf { tag := .plain, type := "u64", name := .str "_" }]

/-- The same of the variants of an enumeration. -/
def mergedEvent : Shape :=
  .group { tag := .enum, type := "MergedEvent", lookupName := .str "MergedEvent" }
    [.leaf { tag := .null, type := "Null", name := .str "on_hold" },
     .leaf { tag := .plain, type := "u64", name := .str "OnHold" },
     .leaf { tag := .null, type := "Null", name := .str "__" }]

/-- Names that are not the same become one key, and of others nothing is left. -/
theorem keys_merged :
    (mergedInfo.memberNames = ["free_balance", "freeBalance", "_"] ∧
      ∃ d, (ofShape ⟨{}, []⟩ mergedInfo).outcome = .ok d ∧
        d.keys = ["freeBalance", "freeBalance", ""]) ∧
    mergedEvent.memberNames = ["on_hold", "OnHold", "__"] ∧
      ∃ d, (ofShape ⟨{}, []⟩ mergedEvent).outcome = .ok d ∧
        d.keys = ["isOnHold", "isOnHold", "asOnHold", "is", "type"] :=
  ⟨⟨rfl, exists_of_keys (by decide +kernel)⟩, rfl, exists_of_keys (by decide +kernel)⟩

end Declaration

end ChainTypings
