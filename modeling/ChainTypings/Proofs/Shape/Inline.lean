import ChainTypings.Proofs.Json.Quotable
import ChainTypings.Proofs.Json.Squeezed
import ChainTypings.Proofs.Shape.RoundTrip
import Mathlib.Data.List.Nodup

/-!
# Inline definitions

A structure, an enumeration or a set may be written where a type is used, as a JSON object. Its
members are types in their canonical text, missing types, or definitions again, each as an object
or as a text that holds its JSON.

`toJson` writes a definition and `shape` is the shape that it is meant to have; its type is the
JSON text without blanks, its `spelling`.
-/

namespace ChainTypings

open Text Json

/-- What may be a member of an inline definition, the definitions among them. -/
inductive Inline where
  /-- A missing type. -/
  | absent
  /-- A type in a text that may have spaces. -/
  | type (text : String) (e : TypeExpr)
  /-- A definition in a text that may have spaces. -/
  | quoted (text : String) (d : Inline)
  | struct (fields : List (AsciiWord × Inline))
  | enum (variants : List (AsciiWord × Inline))
  /-- An enumeration whose variants hold nothing. -/
  | variants (names : List AsciiWord)
  /-- A set of flags with their bits; its bit length may stand among them. -/
  | set (flags : List (AsciiWord × Int)) (length : Option Int) (others : List (AsciiWord × Int))

namespace Inline

/-- Whether it is a definition itself. -/
def IsDefinition : Inline → Prop
  | struct _ => True
  | enum _ => True
  | variants _ => True
  | set _ _ _ => True
  | _ => False

/-! ## The JSON of a definition -/

/-- The fields of a set: the flags with their bits, and the bit length. -/
def setFields (flags : List (AsciiWord × Int)) (length : Option Int)
    (others : List (AsciiWord × Int)) : List (String × Json) :=
  flags.map (fun f => (f.1.toString, .int f.2)) ++
    (length.toList.map fun n => ("_bitLength", .int n)) ++
    others.map fun f => (f.1.toString, .int f.2)

mutual

/-- A member as a value. -/
def toJson : Inline → Json
  | absent => .null
  | type s _ => .str s
  | quoted s _ => .str s
  | struct fs => .obj (toJsonEach fs)
  | enum vs => .obj [("_enum", .obj (toJsonEach vs))]
  | variants ns => .obj [("_enum", .arr ((ns.map AsciiWord.toString).map .str))]
  | set fs n os => .obj [("_set", .obj (setFields fs n os))]

/-- Members as the fields of an object. -/
def toJsonEach : List (AsciiWord × Inline) → List (String × Json)
  | [] => []
  | (w, m) :: rest => (w.toString, toJson m) :: toJsonEach rest

end

/-- The text of a member without blanks. -/
def spelling (m : Inline) : List Char := (Construct.memberText m.toJson).filter (!isBlank ·)

/-- The text of a member without blanks. -/
def text (m : Inline) : String := String.ofList m.spelling

/-! ## Meaning -/

mutual

/-- The shape that a member is meant to have. -/
def shape : Inline → Shape
  | absent => .leaf { tag := .null, type := "Null" }
  | type _ e => e.shape
  | quoted _ d => shape d
  | struct fs => .group { tag := .struct, type := (struct fs).text } (shapeEach fs)
  | enum vs => .group { tag := .enum, type := (enum vs).text } (shapeEach vs)
  | variants ns =>
    .group { tag := .enum, type := (variants ns).text }
      (ns.map fun w => .leaf { tag := .null, type := "Null", name := .str w.toString })
  | set fs n os =>
    .group { tag := .set, type := (set fs n os).text, length := .int (n.getD 8) }
      ((fs ++ os).map fun f =>
        .leaf { tag := .plain, type := toString f.2, name := .str f.1.toString })

/-- The shapes that members are meant to have, each with its name. -/
def shapeEach : List (AsciiWord × Inline) → List Shape
  | [] => []
  | (w, m) :: rest => (shape m).named (.str w.toString) :: shapeEach rest

end

/-! ## Well-formed definitions -/

/-- A word that names a member: no word for text and none with a meaning in a definition. -/
structure IsName (w : AsciiWord) : Prop where
  not_text : w.isText = false
  not_reserved : w.toString ∉ ["_enum", "_set", "_bitLength"]

/-- Names of which none is there twice. -/
structure AreNames (ws : List AsciiWord) : Prop where
  nodup : ws.Nodup
  names : ∀ w ∈ ws, IsName w

/-- A definition, or a member of one, whose text says what it is. -/
inductive WellFormed : Inline → Prop
  | absent : WellFormed .absent
  | type {s e} : s.toList.filter (· ≠ ' ') = e.print → e.Canonical → WellFormed (.type s e)
  | quoted {s d} : s.toList.filter (· ≠ ' ') = d.spelling → d.IsDefinition → WellFormed d →
      WellFormed (.quoted s d)
  | struct {fs : List (AsciiWord × Inline)} : AreNames (fs.map (·.1)) →
      (∀ f ∈ fs, WellFormed f.2) → WellFormed (.struct fs)
  | enum {vs : List (AsciiWord × Inline)} : AreNames (vs.map (·.1)) →
      (∀ v ∈ vs, WellFormed v.2) → WellFormed (.enum vs)
  | variants {ns} : (∀ w ∈ ns, IsName w) → WellFormed (.variants ns)
  | set {fs n os} : AreNames ((fs ++ os).map (·.1)) → WellFormed (.set fs n os)

theorem toJsonEach_eq_map (fs : List (AsciiWord × Inline)) :
    toJsonEach fs = fs.map fun f => (f.1.toString, f.2.toJson) := by
  induction fs with
  | nil => rfl
  | cons f fs ih =>
    obtain ⟨w, m⟩ := f
    rw [toJsonEach, ih, List.map_cons]

theorem shapeEach_eq_map (fs : List (AsciiWord × Inline)) :
    shapeEach fs = fs.map fun f => f.2.shape.named (.str f.1.toString) := by
  induction fs with
  | nil => rfl
  | cons f fs ih =>
    obtain ⟨w, m⟩ := f
    rw [shapeEach, ih, List.map_cons]

/-! ## Names -/

theorem toString_injective : Function.Injective AsciiWord.toString := by
  intro w v h
  refine AsciiWord.ext ?_
  rw [← w.toList_toString, h, v.toList_toString]

/-- A word holds no space. -/
@[simp] theorem squeeze_toString (w : AsciiWord) : squeeze w.toString = w.toString := by
  have hne : w.chars.filter (· ≠ ' ') = w.chars := by
    rw [List.filter_eq_self]
    intro c hc
    exact decide_eq_true (ne_of_isWordChar (w.isWordChar c hc) rfl)
  rw [squeeze, w.toList_toString, hne]
  rfl

theorem AreNames.nodup_keys {ws : List AsciiWord} (h : AreNames ws) :
    (ws.map AsciiWord.toString).Nodup :=
  List.Nodup.map toString_injective h.nodup

theorem keys_toJsonEach (fs : List (AsciiWord × Inline)) :
    (toJsonEach fs).map (·.1) = (fs.map (·.1)).map AsciiWord.toString := by
  rw [toJsonEach_eq_map, List.map_map, List.map_map]
  rfl

/-- The bit length is no flag. -/
theorem nodup_setFields {fs os : List (AsciiWord × Int)} {n : Option Int}
    (h : AreNames ((fs ++ os).map (·.1))) : ((setFields fs n os).map (·.1)).Nodup := by
  have hkeys := h.nodup_keys
  simp only [List.map_append, List.map_map] at hkeys
  cases n with
  | none =>
    simpa [setFields, Function.comp_def] using hkeys
  | some n =>
    have hlength : "_bitLength" ∉ (fs ++ os).map fun f => f.1.toString := by
      intro hm
      obtain ⟨f, hf, he⟩ := List.mem_map.1 hm
      refine (h.names f.1 (List.mem_map_of_mem hf)).not_reserved ?_
      rw [he]
      simp
    have hmiddle : ((fs.map fun f => f.1.toString) ++
        "_bitLength" :: os.map fun f => f.1.toString).Nodup := by
      rw [List.nodup_middle, List.nodup_cons, ← List.map_append]
      exact ⟨hlength, by simpa [Function.comp_def] using hkeys⟩
    simpa [setFields, Function.comp_def] using hmiddle

/-! ## The value behind a definition -/

theorem plain_object {k : String} {v : Json} (h : v.Plain) : (Json.obj [(k, v)]).Plain :=
  .obj (by simp) (by simpa using h)

theorem settled_object {k : String} (hk : Quotable k.toList) {v : Json} (h : v.Settled) :
    (Json.obj [(k, v)]).Settled :=
  .obj (by simp) (by simpa using hk) (by simpa using h)

theorem plain_members {fs : List (AsciiWord × Inline)} (hn : AreNames (fs.map (·.1)))
    (h : ∀ f ∈ fs, f.2.toJson.Plain) : (Json.obj (toJsonEach fs)).Plain := by
  refine .obj (by rw [keys_toJsonEach]; exact hn.nodup_keys) fun f hf => ?_
  rw [toJsonEach_eq_map] at hf
  obtain ⟨g, hg, rfl⟩ := List.mem_map.1 hf
  exact h g hg

/-- The fields of a set hold integers, and their keys are the flags and the bit length. -/
theorem of_mem_setFields {fs os : List (AsciiWord × Int)} {n : Option Int} {f : String × Json}
    (h : f ∈ setFields fs n os) :
    (∃ b, f.2 = .int b) ∧ (f.1 = "_bitLength" ∨ ∃ w ∈ (fs ++ os).map (·.1), f.1 = w.toString) := by
  rw [setFields, List.mem_append, List.mem_append] at h
  rcases h with (h | h) | h
  · obtain ⟨g, hg, rfl⟩ := List.mem_map.1 h
    exact ⟨⟨_, rfl⟩, .inr ⟨g.1, List.mem_map_of_mem (List.mem_append_left _ hg), rfl⟩⟩
  · obtain ⟨b, -, rfl⟩ := List.mem_map.1 h
    exact ⟨⟨b, rfl⟩, .inl rfl⟩
  · obtain ⟨g, hg, rfl⟩ := List.mem_map.1 h
    exact ⟨⟨_, rfl⟩, .inr ⟨g.1, List.mem_map_of_mem (List.mem_append_right _ hg), rfl⟩⟩

theorem WellFormed.plain_toJson {m : Inline} (h : m.WellFormed) : m.toJson.Plain := by
  induction h with
  | absent => exact .null
  | type _ _ => exact .str _
  | quoted _ _ _ _ => exact .str _
  | struct hn _ ih => exact plain_members hn ih
  | enum hn _ ih => exact plain_object (plain_members hn ih)
  | variants _ =>
    refine plain_object (.arr fun v hv => ?_)
    obtain ⟨s, -, rfl⟩ := List.mem_map.1 hv
    exact .str s
  | set hn =>
    refine plain_object (.obj (nodup_setFields hn) fun f hf => ?_)
    obtain ⟨⟨b, hb⟩, -⟩ := of_mem_setFields hf
    rw [hb]
    exact .int b

/-- The text of a definition without blanks is that of its squeezed value. -/
theorem WellFormed.spelling_eq {m : Inline} (h : m.WellFormed) (hd : m.IsDefinition) :
    m.spelling = written [] m.toJson.squeezed := by
  have hplain := h.plain_toJson
  cases m with
  | absent => exact hd.elim
  | type s e => exact hd.elim
  | quoted s d => exact hd.elim
  | _ => exact filter_dumpChars spaceless_notBlank hplain

/-! ### Squeezed -/

theorem squeezedFields_toJsonEach (fs : List (AsciiWord × Inline)) :
    squeezedFields (toJsonEach fs) = fs.map fun f => (f.1.toString, f.2.toJson.squeezed) := by
  rw [toJsonEach_eq_map, squeezedFields_eq_map, List.map_map]
  refine List.map_congr_left fun f _ => ?_
  rw [Function.comp_apply, squeeze_toString]

theorem squeezed_variants (ns : List AsciiWord) :
    ((variants ns).toJson).squeezed = (variants ns).toJson := by
  have hnames : ((ns.map AsciiWord.toString).map Json.str).map squeezed =
      (ns.map AsciiWord.toString).map .str := by
    simp [squeezed]
  simp only [toJson, squeezed, squeezedFields, squeezedItems_eq_map, hnames]
  rfl

theorem squeezed_set (fs os : List (AsciiWord × Int)) (n : Option Int) :
    ((set fs n os).toJson).squeezed = (set fs n os).toJson := by
  have hfields : squeezedFields (setFields fs n os) = setFields fs n os := by
    rw [squeezedFields_eq_map]
    refine (List.map_congr_left fun f hf => ?_).trans (List.map_id _)
    obtain ⟨k, v⟩ := f
    obtain ⟨⟨b, rfl⟩, rfl | ⟨w, -, rfl⟩⟩ := of_mem_setFields hf
    · have hlength : squeeze "_bitLength" = "_bitLength" := by decide
      simp [squeezed, hlength]
    · simp [squeezed]
  simp only [toJson, squeezed, squeezedFields, hfields]
  rfl

theorem quotable_print {e : TypeExpr} (h : e.Canonical) : Quotable e.print where
  interspersed := .stretch (.phrase h.proper_phrase h.renamed_phrase h.packed_phrase)
  nested := e.phrase.nested_print.mono fun _ _ => trivial

theorem IsName.quotable {w : AsciiWord} (h : IsName w) : Quotable w.toString.toList := by
  rw [w.toList_toString]
  exact quotable_word h.not_text

theorem quotable_enum : Quotable "_enum".toList :=
  quotable_word (w := .of ['_', 'e', 'n', 'u', 'm']) (by decide)

theorem quotable_set : Quotable "_set".toList :=
  quotable_word (w := .of ['_', 's', 'e', 't']) (by decide)

theorem quotable_bitLength : Quotable "_bitLength".toList :=
  quotable_word (w := .of ['_', 'b', 'i', 't', 'L', 'e', 'n', 'g', 't', 'h']) (by decide)

theorem settled_members {fs : List (AsciiWord × Inline)} (hn : AreNames (fs.map (·.1)))
    (h : ∀ f ∈ fs, f.2.toJson.squeezed.Settled) :
    (Json.obj (squeezedFields (toJsonEach fs))).Settled := by
  rw [squeezedFields_toJsonEach]
  refine .obj ?_ ?_ ?_
  · have hkeys := hn.nodup_keys
    rw [List.map_map] at hkeys ⊢
    exact hkeys
  · intro f hf
    obtain ⟨g, hg, rfl⟩ := List.mem_map.1 hf
    exact (hn.names g.1 (List.mem_map_of_mem hg)).quotable
  · intro f hf
    obtain ⟨g, hg, rfl⟩ := List.mem_map.1 hf
    exact h g hg

/-- Without spaces in its texts the value of a definition is made of quotable texts. -/
theorem WellFormed.settled {m : Inline} (h : m.WellFormed) : m.toJson.squeezed.Settled := by
  induction h with
  | absent => exact .null
  | type hs he =>
    refine .str ?_
    rw [toList_squeeze, hs]
    exact quotable_print he
  | quoted hs hd h ih =>
    -- the text is the definition's own text but for spaces, and that is quotable by induction
    refine .str ?_
    rw [toList_squeeze, hs, h.spelling_eq hd]
    exact ih.quotable
  | struct hn _ ih => exact settled_members hn ih
  | enum hn _ ih => exact settled_object quotable_enum (settled_members hn ih)
  | @variants ns hn =>
    rw [squeezed_variants]
    refine settled_object quotable_enum (.texts fun s hs => ?_)
    obtain ⟨w, hw, rfl⟩ := List.mem_map.1 hs
    exact (hn w hw).quotable
  | @set fs n os hn =>
    rw [squeezed_set]
    refine settled_object quotable_set (.obj (nodup_setFields hn) ?_ ?_)
    · intro f hf
      obtain ⟨-, hk | ⟨w, hw, hk⟩⟩ := of_mem_setFields hf
      · rw [hk]
        exact quotable_bitLength
      · rw [hk]
        exact (hn.names w hw).quotable
    · intro f hf
      obtain ⟨⟨b, hb⟩, -⟩ := of_mem_setFields hf
      rw [hb]
      exact .int b

end Inline

end ChainTypings
