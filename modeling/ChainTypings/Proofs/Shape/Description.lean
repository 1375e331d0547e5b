import ChainTypings.Proofs.Json.RoundTrip
import ChainTypings.Proofs.Shape.Heads
import ChainTypings.Shape.Description

/-!
# Descriptions describe their shapes

Written, a shape is the object of nine annotations less those that are absent (`toJson_eq`), and
so it is read back as it was (`ofJson_toJson`). The text of the description is enough for that if
its values are read back from their texts, so shapes of equal texts are equal (`dump_injective`).

Read, a description may hold more than that: fields of other names, annotations that are null, and
documentation that holds nothing. Without these, at any depth, it is what is written for its
shape (`toJson_of_ofJson`).
-/

namespace ChainTypings

/-! ## Fields that are not null -/

namespace Json

/-- The fields that hold something other than null. -/
def present (fields : List (String × Json)) : List (String × Json) :=
  fields.filter fun f => !f.2.isNull

theorem field_of_not_mem {key : String} {fields : List (String × Json)}
    (h : key ∉ fields.map (·.1)) : field key fields = .null := by
  rw [field, List.lookup_eq_none_iff.2]
  · rfl
  · intro f hf
    rw [bne_iff_ne]
    rintro rfl
    exact h (List.mem_map_of_mem hf)

theorem field_cons (key : String) (f : String × Json) (fields : List (String × Json)) :
    field key (f :: fields) = if key = f.1 then f.2 else field key fields := by
  obtain ⟨k, v⟩ := f
  rw [field, List.lookup_cons]
  by_cases h : key = k
  · simp [h]
  · have hne : (key == k) = false := by simpa using h
    simp [h, hne, field]

theorem nodup_present {fields : List (String × Json)} (h : (fields.map (·.1)).Nodup) :
    ((present fields).map (·.1)).Nodup :=
  List.Nodup.sublist (List.filter_sublist.map _) h

/-- What is null and what is missing are the same to whoever looks at the field. -/
theorem field_present {fields : List (String × Json)} (h : (fields.map (·.1)).Nodup)
    (key : String) : field key (present fields) = field key fields := by
  induction fields with
  | nil => rfl
  | cons f fields ih =>
    rw [List.map_cons, List.nodup_cons] at h
    rw [field_cons]
    cases hnull : f.2.isNull with
    | false =>
      have hkeep : present (f :: fields) = f :: present fields :=
        List.filter_cons_of_pos (by simp [hnull])
      rw [hkeep, field_cons, ih h.2]
    | true =>
      have hdrop : present (f :: fields) = present fields :=
        List.filter_cons_of_neg (by simp [hnull])
      rw [hdrop, ih h.2]
      split
      · next hkey =>
        subst hkey
        have hvalue : f.2 = .null := by
          cases hf : f.2 <;> simp_all [isNull]
        rw [hvalue, field_of_not_mem h.1]
      · rfl

end Json

namespace Shape

open Json

/-! ## Writing -/

/-- The documentation lines as an annotation; none stand for null. -/
def docsJson (docs : List Json) : Json := if docs.isEmpty then .null else .arr docs

/-- The annotations of a description, with null for what is absent. -/
def annotations (h : Head) (sub : Json) : List (String × Json) :=
  [("info", .str h.tag.name), ("type", .str h.type), ("lookupName", h.lookupName),
   ("lookupIndex", h.lookupIndex), ("sub", sub), ("name", h.name), ("typeName", h.typeName),
   ("length", h.length), ("docs", docsJson h.docs)]

/-- The names of the annotations. -/
def fieldNames : List String :=
  ["info", "type", "lookupName", "lookupIndex", "sub", "name", "typeName", "length", "docs"]

theorem nodup_annotations (h : Head) (sub : Json) : ((annotations h sub).map (·.1)).Nodup := by
  show fieldNames.Nodup
  decide

/-- What stands beneath a shape, as an annotation. -/
def Beneath.toJson : Beneath → Json
  | nothing => .null
  | one s => s.toJson
  | many ss => .arr (toJsonList ss)

theorem isNull_toJson (s : Shape) : s.toJson.isNull = false := by
  cases s <;> rfl

theorem describe_eq (h : Head) {sub : Json} :
    describe h (optionalField "sub" sub) = .obj (present (annotations h sub)) := by
  have hoptional : ∀ (key : String) (v : Json) (rest : List (String × Json)),
      present ((key, v) :: rest) = optionalField key v ++ present rest := by
    intro key v rest
    unfold present optionalField
    rw [List.filter_cons]
    cases v <;> simp [isNull]
  have hdocs : optionalField "docs" (docsJson h.docs) =
      if h.docs.isEmpty then [] else [("docs", .arr h.docs)] := by
    unfold docsJson
    split <;> rfl
  simp only [describe, annotations, hoptional, ← hdocs]
  simp [optionalField, isNull, present]

/-- A description is the object of the annotations that are not null. -/
theorem toJson_ofBeneath (h : Head) (b : Beneath) :
    (ofBeneath h b).toJson = .obj (present (annotations h b.toJson)) := by
  rw [← describe_eq]
  cases b with
  | nothing => rfl
  | one s => rw [Beneath.toJson, optionalField, isNull_toJson]; rfl
  | many ss => rfl

/-! ## Reading what was written -/

theorem docsOf_eq (type : String) {fields : List (String × Json)} {docs : List Json}
    (h : field "docs" fields = docsJson docs) : docsOf type fields = .ok docs := by
  unfold docsOf
  rw [h]
  cases docs with
  | nil => rfl
  | cons d ds => rfl

/-- What stands beneath a shape is read from the field for it. -/
theorem beneath_eq (fields : List (String × Json)) :
    beneath fields =
      match field "sub" fields with
      | .null => .ok .nothing
      | .arr items => (ofJsonList items).map .many
      | v => (ofJson v).map .one := by
  induction fields with
  | nil => rfl
  | cons f fields ih =>
    obtain ⟨key, v⟩ := f
    rw [field_cons]
    by_cases hkey : key = "sub"
    · subst hkey
      rw [beneath, if_pos rfl, if_pos rfl]
      cases v with
      | null => rfl
      | arr items =>
        dsimp only
        cases ofJsonList items <;> rfl
      | bool | int | float | str | obj =>
        dsimp only
        generalize ofJson _ = r
        cases r <;> rfl
    · rw [beneath, if_neg hkey, if_neg (Ne.symm hkey), ih]

theorem ofJson_annotations (h : Head) (sub : Json) :
    ofJson (.obj (present (annotations h sub))) =
      (beneath [("sub", sub)]).map (ofBeneath h) := by
  have hfield : ∀ key, field key (present (annotations h sub)) = field key (annotations h sub) :=
    field_present (nodup_annotations h sub)
  have hsub : beneath (present (annotations h sub)) = beneath [("sub", sub)] := by
    rw [beneath_eq, beneath_eq, hfield]
    rfl
  have hdocs : docsOf h.type (present (annotations h sub)) = .ok h.docs :=
    docsOf_eq _ (hfield "docs")
  have hhead : headOf h.tag h.type h.docs (present (annotations h sub)) = h := by
    simp only [headOf, hfield]
    rfl
  have hinfo : field "info" (annotations h sub) = .str h.tag.name := rfl
  have htype : field "type" (annotations h sub) = .str h.type := rfl
  rw [ofJson]
  simp only [hfield, hinfo, htype, text?, Option.bind_some, Tag.ofName?_name, hsub]
  cases beneath [("sub", sub)] with
  | error e => rfl
  | ok b => simp only [hdocs, hhead, Except.map]

theorem ofJsonList_toJsonList {ss : List Shape} (h : ∀ s ∈ ss, ofJson s.toJson = .ok s) :
    ofJsonList (toJsonList ss) = .ok ss := by
  induction ss with
  | nil => rfl
  | cons s ss ih =>
    rw [toJsonList, ofJsonList, h s (by simp)]
    simp only [ih fun t ht => h t (List.mem_cons_of_mem _ ht)]

theorem beneath_one {s : Shape} (h : ofJson s.toJson = .ok s) :
    beneath [("sub", s.toJson)] = .ok (.one s) := by
  obtain ⟨fields, hfields⟩ : ∃ fields, s.toJson = .obj fields := by
    cases s <;> exact ⟨_, rfl⟩
  rw [hfields] at h ⊢
  simp only [beneath, if_true, h]

theorem beneath_many {ss : List Shape} (h : ∀ s ∈ ss, ofJson s.toJson = .ok s) :
    beneath [("sub", .arr (toJsonList ss))] = .ok (.many ss) := by
  simp only [beneath, if_true, ofJsonList_toJsonList h]

/-- A shape is read back from its description. -/
theorem ofJson_toJson (s : Shape) : ofJson s.toJson = .ok s := by
  have hbeneath : ∀ (h : Head) (b : Beneath), beneath [("sub", b.toJson)] = .ok b →
      ofJson (ofBeneath h b).toJson = .ok (ofBeneath h b) := by
    intro h b hb
    rw [toJson_ofBeneath, ofJson_annotations, hb]
    rfl
  induction s with
  | leaf h => exact hbeneath h .nothing rfl
  | single h c ih => exact hbeneath h (.one c) (beneath_one ih)
  | group h cs ih => exact hbeneath h (.many cs) (beneath_many ih)

end Shape

/-! ## Texts of descriptions -/

/-- The annotations of the head are read back from their texts: none of them holds floating-point
numbers or repeated keys. -/
structure Head.IsPlain (h : Head) : Prop where
  lookupName : h.lookupName.Plain
  lookupIndex : h.lookupIndex.Plain
  name : h.name.Plain
  typeName : h.typeName.Plain
  length : h.length.Plain
  docs : ∀ d ∈ h.docs, d.Plain

namespace Shape

open Json

theorem toJsonList_eq_map (ss : List Shape) : toJsonList ss = ss.map toJson := by
  induction ss with
  | nil => rfl
  | cons s ss ih => rw [toJsonList, ih, List.map_cons]

theorem plain_annotations {h : Head} (hh : h.IsPlain) {sub : Json} (hsub : sub.Plain) :
    ∀ f ∈ annotations h sub, f.2.Plain := by
  have hdocs : (docsJson h.docs).Plain := by
    unfold docsJson
    split
    · exact .null
    · exact .arr hh.docs
  simp only [annotations, List.forall_mem_cons, List.not_mem_nil, false_implies, implies_true,
    and_true]
  exact ⟨.str _, .str _, hh.lookupName, hh.lookupIndex, hsub, hh.name, hh.typeName, hh.length,
    hdocs⟩

theorem plain_toJson {s : Shape} (hs : ∀ h ∈ s.heads, h.IsPlain) : s.toJson.Plain := by
  have hplain : ∀ (h : Head) (b : Beneath), h.IsPlain → b.toJson.Plain →
      (ofBeneath h b).toJson.Plain := by
    intro h b hh hb
    rw [toJson_ofBeneath]
    refine .obj (nodup_present (nodup_annotations h _)) fun f hf => ?_
    exact plain_annotations hh hb f (List.mem_of_mem_filter hf)
  have hhead := hs _ s.head_mem_heads
  induction s with
  | leaf h => exact hplain h .nothing hhead .null
  | single h c ih =>
    have hc : ∀ k ∈ c.heads, k.IsPlain :=
      fun k hk => hs k (mem_heads_of_mem_children (List.mem_singleton_self c) hk)
    exact hplain h (.one c) hhead (ih hc (hc _ c.head_mem_heads))
  | group h cs ih =>
    have hcs : ∀ c ∈ cs, ∀ k ∈ c.heads, k.IsPlain :=
      fun c hc k hk => hs k (mem_heads_of_mem_children hc hk)
    refine hplain h (.many cs) hhead (.arr fun v hv => ?_)
    rw [toJsonList_eq_map] at hv
    obtain ⟨c, hc, rfl⟩ := List.mem_map.1 hv
    exact ih c hc (hcs c hc) (hcs c hc _ c.head_mem_heads)

/-- The text of a description is read back as the description. -/
theorem read_dump {s : Shape} (h : ∀ k ∈ s.heads, k.IsPlain) :
    Json.read s.dump = .ok s.toJson := by
  have hgap : ∀ c ∈ [' '], isGap c = true := List.all_eq_true.1 (by decide)
  show readChars s.toJson.dump.toList = .ok s.toJson
  rw [Json.dump, String.toList_ofList, ← written_blank]
  exact readChars_written hgap (plain_toJson h)

/-- Shapes whose descriptions have one text are equal. -/
theorem dump_injective {s t : Shape} (hs : ∀ k ∈ s.heads, k.IsPlain)
    (ht : ∀ k ∈ t.heads, k.IsPlain) (h : s.dump = t.dump) : s = t := by
  have hjson : s.toJson = t.toJson := by
    have hread := read_dump hs
    rw [h, read_dump ht] at hread
    exact (Except.ok.inj hread).symm
  have hshape := ofJson_toJson s
  rw [hjson, ofJson_toJson] at hshape
  exact (Except.ok.inj hshape).symm

/-! ## Writing what was read -/

/-- The annotation of the name among the fields, with null for documentation that holds nothing. -/
def annotationOf (fields : List (String × Json)) (name : String) : Json :=
  let v := field name fields
  if name = "docs" ∧ v.isEmpty then .null else v

mutual

/-- The description restricted to what describes a shape: the known fields, in their order, less
those that are null and documentation that holds nothing; and so at any depth. -/
def restricted : Json → Json
  | .obj fields =>
    .obj (present (fieldNames.map fun name => (name, annotationOf (restrictedFields fields) name)))
  | .arr items => .arr (restrictedItems items)
  | v => v

/-- Several descriptions, each restricted. -/
def restrictedItems : List Json → List Json
  | [] => []
  | v :: rest => restricted v :: restrictedItems rest

/-- The fields of a description, with what stands beneath restricted. -/
def restrictedFields : List (String × Json) → List (String × Json)
  | [] => []
  | (key, v) :: rest =>
    (key, if key = "sub" then restricted v else v) :: restrictedFields rest

end

theorem field_restrictedFields {key : String} (h : key ≠ "sub") (fields : List (String × Json)) :
    field key (restrictedFields fields) = field key fields := by
  induction fields with
  | nil => rfl
  | cons f fields ih =>
    obtain ⟨k, v⟩ := f
    rw [restrictedFields, field_cons, field_cons, ih]
    by_cases hk : key = k
    · subst hk
      simp [h]
    · simp [hk]

theorem docsJson_of_docsOf {type : String} {fields : List (String × Json)} {docs : List Json}
    (h : docsOf type fields = .ok docs) : docsJson docs = annotationOf fields "docs" := by
  unfold docsOf at h
  unfold annotationOf docsJson
  dsimp only at h ⊢
  split at h
  · next hempty =>
    obtain rfl := Except.ok.inj h
    simp [hempty]
  · next hempty =>
    split at h
    · next items hitems =>
      obtain rfl := Except.ok.inj h
      rw [hitems] at hempty ⊢
      simp_all [isEmpty]
    · cases h

/-- The annotations of what is read from fields are those of the fields restricted. -/
theorem annotations_headOf {tag : Tag} {type : String} {docs : List Json}
    {fields : List (String × Json)} {sub : Json} (htag : field "info" fields = .str tag.name)
    (htype : field "type" fields = .str type) (hdocs : docsOf type fields = .ok docs)
    (hsub : sub = field "sub" (restrictedFields fields)) :
    annotations (headOf tag type docs fields) sub =
      fieldNames.map fun name => (name, annotationOf (restrictedFields fields) name) := by
  have hkept : ∀ name, name ≠ "sub" → name ≠ "docs" →
      annotationOf (restrictedFields fields) name = field name fields := by
    intro name hsub hdocs
    rw [annotationOf, field_restrictedFields hsub]
    exact if_neg fun h => hdocs h.1
  have hdocs' : docsJson docs = annotationOf (restrictedFields fields) "docs" := by
    rw [annotationOf, field_restrictedFields (by decide)]
    exact docsJson_of_docsOf hdocs
  have hsub' : sub = annotationOf (restrictedFields fields) "sub" := by
    rw [hsub, annotationOf, if_neg (by simp)]
  have hlist : annotations (headOf tag type docs fields) sub =
      [("info", field "info" fields), ("type", field "type" fields),
       ("lookupName", field "lookupName" fields), ("lookupIndex", field "lookupIndex" fields),
       ("sub", sub), ("name", field "name" fields), ("typeName", field "typeName" fields),
       ("length", field "length" fields), ("docs", docsJson docs)] := by
    rw [htag, htype]
    rfl
  rw [hlist, hdocs', hsub']
  simp [fieldNames, hkept]

theorem info_of_ofName? {v : Json} {tag : Tag} (h : v.text?.bind Tag.ofName? = some tag) :
    v = .str tag.name := by
  obtain ⟨s, hs, htag⟩ := Option.bind_eq_some_iff.1 h
  have hname : tag.name = s := by simpa using List.find?_some htag
  cases v with
  | str t =>
    obtain rfl := Option.some.inj hs
    rw [hname]
  | _ => cases hs

mutual

/-- What is read from a description is written as the description restricted. -/
theorem toJson_of_ofJson : ∀ {d : Json} {s : Shape}, ofJson d = .ok s → s.toJson = restricted d
  | .obj fields, s, h => by
    rw [ofJson] at h
    split at h
    · cases h
    · next tag htag =>
      split at h
      · next type htype =>
        split at h
        · cases h
        · next sub hsub =>
          split at h
          · cases h
          · next docs hdocs =>
            obtain rfl := Except.ok.inj h
            have hinfo := info_of_ofName? htag
            have hsub' := toJson_of_beneath hsub
            rw [toJson_ofBeneath, restricted, annotations_headOf hinfo htype hdocs hsub']
      · cases h
  | .null, s, h => by cases h
  | .bool b, s, h => by cases h
  | .int n, s, h => by cases h
  | .float x, s, h => by cases h
  | .str t, s, h => by cases h
  | .arr items, s, h => by cases h

theorem toJson_of_beneath : ∀ {fields : List (String × Json)} {b : Beneath},
    beneath fields = .ok b → b.toJson = field "sub" (restrictedFields fields)
  | [], b, h => by
    obtain rfl := Except.ok.inj h
    rfl
  | (key, v) :: rest, b, h => by
    rw [beneath] at h
    rw [restrictedFields, field_cons]
    split at h
    · next hkey =>
      subst hkey
      rw [if_pos rfl, if_pos rfl]
      split at h
      · obtain rfl := Except.ok.inj h
        rfl
      · split at h
        · next hss =>
          obtain rfl := Except.ok.inj h
          rw [Beneath.toJson, restricted, toJsonList_of_ofJsonList hss]
        · cases h
      · dsimp only at h
        split at h
        · next hs =>
          obtain rfl := Except.ok.inj h
          exact toJson_of_ofJson hs
        · cases h
    · next hkey =>
      rw [if_neg (Ne.symm hkey)]
      exact toJson_of_beneath h

theorem toJsonList_of_ofJsonList : ∀ {ds : List Json} {ss : List Shape},
    ofJsonList ds = .ok ss → toJsonList ss = restrictedItems ds
  | [], ss, h => by
    obtain rfl := Except.ok.inj h
    rfl
  | d :: ds, ss, h => by
    rw [ofJsonList] at h
    split at h
    · cases h
    · next s hs =>
      split at h
      · next ss' hss =>
        obtain rfl := Except.ok.inj h
        rw [toJsonList, restrictedItems, toJson_of_ofJson hs, toJsonList_of_ofJsonList hss]
      · cases h

end

/-- Every shape is read back from its description and, if its annotations are read back from their
texts, from the text of its description, so that no other such shape has that text. Every value is
refused as a description or else describes a shape whose description is the value restricted. -/
theorem description_roundTrip :
    (∀ s, ofJson s.toJson = .ok s) ∧
      (∀ s, (∀ h ∈ s.heads, h.IsPlain) →
        (∃ d, Json.read s.dump = .ok d ∧ ofJson d = .ok s) ∧
          ∀ t, (∀ h ∈ t.heads, h.IsPlain) → t.dump = s.dump → t = s) ∧
      ∀ d, (∃ e, ofJson d = .error e) ∨ ∃ s, ofJson d = .ok s ∧ s.toJson = restricted d := by
  refine ⟨ofJson_toJson, fun s hs => ⟨?_, fun t ht h => dump_injective ht hs h⟩, fun d => ?_⟩
  · exact ⟨s.toJson, read_dump hs, ofJson_toJson s⟩
  · cases h : ofJson d with
    | error e => exact .inl ⟨e, rfl⟩
    | ok s => exact .inr ⟨s, rfl, toJson_of_ofJson h⟩

/-- A structure with an empty name, an index of zero and documentation beyond the plane of sixteen
bits. -/
def seat : Shape :=
  .group { tag := .struct, type := "Seat", lookupName := .str "", lookupIndex := .int 0 }
    [.leaf { tag := .plain, type := "u8", name := .str "row", docs := [.str "a \"row\" 𝟙"] },
     .single { tag := .vec, type := "Vec<u8>", length := .int (-3) }
      (.leaf { tag := .plain, type := "u8", typeName := .str "\n" })]

theorem description_roundTrip_seat : (∀ h ∈ seat.heads, h.IsPlain) ∧
    (∃ d, Json.read seat.dump = .ok d ∧ ofJson d = .ok seat) ∧
      ∀ t : Shape, (∀ h ∈ t.heads, h.IsPlain) → t.dump = seat.dump → t = seat := by
  have hplain : ∀ h ∈ seat.heads, h.IsPlain := by
    have hdocs : ∀ d ∈ [Json.str "a \"row\" 𝟙"], d.Plain :=
      fun d hd => List.mem_singleton.1 hd ▸ .str _
    simp only [seat, heads, headsEach, List.cons_append, List.nil_append, List.append_nil,
      List.forall_mem_cons, List.not_mem_nil, false_implies, implies_true, and_true]
    exact ⟨⟨.str _, .int _, .null, .null, .null, by simp⟩,
      ⟨.null, .null, .str _, .null, .null, hdocs⟩, ⟨.null, .null, .null, .null, .int _, by simp⟩,
      ⟨.null, .null, .null, .str _, .null, by simp⟩⟩
  exact ⟨hplain, description_roundTrip.2.1 seat hplain⟩

end Shape

end ChainTypings
