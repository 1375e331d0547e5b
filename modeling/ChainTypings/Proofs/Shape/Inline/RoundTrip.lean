import ChainTypings.Proofs.Shape.Inline

/-!
# Parsing an inline definition undoes writing it

A definition is read one layer at a time: the normal spelling of its JSON is the text without
blanks (`Quotable` texts are kept), the value behind it is read back, and its fields say what the
definition is (`ofFields_fields`). The members are again texts, written anew from what was read, and
lose their blanks at their own layer. So the invariant that carries the induction is about every
text that is a member's text but for blanks (`WellFormed.parse_of_filter`).
-/

namespace ChainTypings.Inline

open Text Json Spelling

open Construct (memberText memberTexts readFlags isNamed takeLength)

/-! ## One layer -/

/-- The members of a definition. -/
def members : Inline → List (AsciiWord × Inline)
  | struct fs => fs
  | enum vs => vs
  | _ => []

/-- The text of a member as it is written anew from the value that was read. -/
def memberChars (m : Inline) : List Char := memberText m.toJson.squeezed

/-- Members with their names and texts. -/
def memberTextsOf (fs : List (AsciiWord × Inline)) : List (Json × List Char) :=
  fs.map fun f => (.str f.1.toString, f.2.memberChars)

/-- The flags of a set as values. -/
def flagsOf (fs : List (AsciiWord × Int)) : List (Json × Json) :=
  fs.map fun f => (.str f.1.toString, .int f.2)

/-- What the text of a definition is outermost. -/
def construct : Inline → Construct
  | struct fs => .members .struct (memberTextsOf fs)
  | enum vs => .members .enum (memberTextsOf vs)
  | variants ns => .variants ((ns.map AsciiWord.toString).map .str)
  | set fs n os => .flags (flagsOf (fs ++ os)) (.int (n.getD 8))
  | _ => .unit

theorem operands_construct (m : Inline) :
    m.construct.operands = m.members.map fun f => f.2.memberChars := by
  cases m with
  | struct fs => simp [construct, Construct.operands, memberTextsOf, members]
  | enum vs => simp [construct, Construct.operands, memberTextsOf, members]
  | _ => rfl

/-- A text of an object is read by the fields of the object. -/
theorem read_object {fields : List (String × Json)} (h : (Json.obj fields).Settled) :
    Construct.read (written [] (.obj fields)) =
      Construct.ofFields (String.ofList (written [] (.obj fields))) fields := by
  have hbalanced := Bracket.isBalanced_of_nested h.quotable.nested
  have hread : readChars (written [] (.obj fields)) = .ok (.obj fields) :=
    readChars_written (by simp) h.plain
  obtain ⟨cs, hcs⟩ : ∃ cs, written [] (.obj fields) = '{' :: cs := ⟨_, rfl⟩
  have hunit : written [] (.obj fields) ≠ ['(', ')'] := by
    rw [hcs]
    intro he
    exact absurd (List.cons.inj he).1 (by decide)
  have hhead : (written [] (.obj fields)).head? = some '\x7b' := by
    rw [hcs]
    rfl
  rw [Construct.read, hbalanced, if_neg hunit, if_pos hhead, Construct.ofInline]
  simp only [hread]
  rfl

/-! ### The fields of a definition -/

theorem lookup_eq_none_of_names {fs : List (AsciiWord × Inline)} (hn : AreNames (fs.map (·.1)))
    {k : String} (hk : k ∈ ["_enum", "_set", "_bitLength"]) :
    (squeezedFields (toJsonEach fs)).lookup k = none := by
  rw [squeezedFields_toJsonEach, List.lookup_eq_none_iff]
  intro f hf
  obtain ⟨g, hg, rfl⟩ := List.mem_map.1 hf
  have hname := (hn.names g.1 (List.mem_map_of_mem hg)).not_reserved
  rw [bne_iff_ne]
  rintro rfl
  exact hname hk

theorem memberTexts_eq (fs : List (AsciiWord × Inline)) :
    memberTexts (squeezedFields (toJsonEach fs)) = memberTextsOf fs := by
  rw [squeezedFields_toJsonEach, memberTexts, List.map_map]
  rfl

theorem readFlags_setFields (fs os : List (AsciiWord × Int)) (n : Option Int) :
    readFlags (.obj (setFields fs n os)) = .ok ((flagsOf fs ++
      n.toList.map fun b => (.str "_bitLength", .int b)) ++ flagsOf os) := by
  rw [readFlags, setFields, List.map_append, List.map_append, List.map_map, List.map_map,
    List.map_map]
  rfl

theorem isNamed_flagsOf {fs : List (AsciiWord × Int)} (h : ∀ w ∈ fs.map (·.1), IsName w) :
    ∀ f ∈ flagsOf fs, isNamed "_bitLength" f = false := by
  intro f hf
  obtain ⟨g, hg, rfl⟩ := List.mem_map.1 hf
  have hname := (h g.1 (List.mem_map_of_mem hg)).not_reserved
  rw [isNamed, decide_eq_false_iff_not]
  intro he
  refine hname ?_
  rw [Option.some.inj he]
  simp

/-- The bit length is taken out of the fields of a set, wherever it stands. -/
theorem takeLength_flags {fs os : List (AsciiWord × Int)} {n : Option Int}
    (hn : AreNames ((fs ++ os).map (·.1))) :
    takeLength ((flagsOf fs ++ n.toList.map fun b => (.str "_bitLength", .int b)) ++ flagsOf os) =
      (.int (n.getD 8), flagsOf (fs ++ os)) := by
  have hflags := isNamed_flagsOf hn.names
  have happend : flagsOf (fs ++ os) = flagsOf fs ++ flagsOf os := List.map_append
  rw [happend] at hflags ⊢
  have hfs : ∀ f ∈ flagsOf fs, isNamed "_bitLength" f = false :=
    fun f hf => hflags f (List.mem_append_left _ hf)
  have hos : ∀ f ∈ flagsOf os, isNamed "_bitLength" f = false :=
    fun f hf => hflags f (List.mem_append_right _ hf)
  have hfind : ∀ {gs : List (Json × Json)}, (∀ f ∈ gs, isNamed "_bitLength" f = false) →
      gs.find? (isNamed "_bitLength") = none :=
    fun h => List.find?_eq_none.2 fun f hf => by simp [h f hf]
  have hkeep : ∀ {gs : List (Json × Json)}, (∀ f ∈ gs, isNamed "_bitLength" f = false) →
      gs.filter (!isNamed "_bitLength" ·) = gs :=
    fun h => List.filter_eq_self.2 fun f hf => by simp [h f hf]
  rw [takeLength, List.find?_append, List.find?_append, hfind hfs, hfind hos, List.filter_append,
    List.filter_append, hkeep hfs, hkeep hos]
  cases n with
  | none => simp
  | some b => simp [isNamed, text?]

/-- The fields of a definition say what it is. -/
theorem ofFields_fields {m : Inline} (h : m.WellFormed) (hd : m.IsDefinition) (value : String) :
    ∃ fields, m.toJson.squeezed = .obj fields ∧
      Construct.ofFields value fields = .ok m.construct := by
  have henum : squeeze "_enum" = "_enum" := by decide
  cases h with
  | absent => exact hd.elim
  | type _ _ => exact hd.elim
  | quoted _ _ _ => exact hd.elim
  | @struct fs hn _ =>
    refine ⟨_, rfl, ?_⟩
    rw [Construct.ofFields, lookup_eq_none_of_names hn (by decide),
      lookup_eq_none_of_names hn (by decide), memberTexts_eq]
    rfl
  | @enum vs hn _ =>
    refine ⟨[("_enum", .obj (squeezedFields (toJsonEach vs)))], ?_, ?_⟩
    · simp only [toJson, squeezed, squeezedFields, henum]
    · show Except.ok (Construct.members .enum _) = _
      rw [memberTexts_eq]
      rfl
  | @variants ns _ => exact ⟨_, squeezed_variants ns, rfl⟩
  | @set fs n os hn =>
    refine ⟨_, squeezed_set fs os n, ?_⟩
    have henum : [("_set", Json.obj (setFields fs n os))].lookup "_enum" = none := rfl
    have hset : ∀ v : Json, [("_set", v)].lookup "_set" = some v := fun _ => rfl
    rw [Construct.ofFields, henum, hset]
    simp only [readFlags_setFields, takeLength_flags hn]
    rfl

/-! ## All layers -/

/-- A text that is a definition but for blanks is read as the definition. -/
theorem WellFormed.ofText_eq {m : Inline} (h : m.WellFormed) (hd : m.IsDefinition)
    {cs : List Char} (hcs : cs.filter (!isBlank ·) = m.spelling) :
    Construct.ofText cs = .ok (m.spelling, m.construct) := by
  obtain ⟨fields, hfields, hof⟩ := ofFields_fields h hd m.text
  have hsettled := h.settled
  have hspelling := h.spelling_eq hd
  rw [hfields] at hsettled hspelling
  have hnormal : normalize cs = m.spelling := by
    refine Interspersed.normalize_of_filter ?_ hcs
    rw [hspelling]
    exact hsettled.quotable.interspersed
  have hne : m.spelling.isEmpty = false := by
    rw [hspelling]
    rfl
  have hread : Construct.read m.spelling = .ok m.construct := by
    rw [← hof, text, hspelling, read_object hsettled]
  rw [Construct.ofText, hnormal]
  simp only [hne, hread]
  rfl

/-- A space is a blank, so the blanks go with or without the spaces. -/
theorem filter_notBlank_filter_ne (cs : List Char) :
    (cs.filter (· ≠ ' ')).filter (!isBlank ·) = cs.filter (!isBlank ·) := by
  rw [List.filter_filter]
  refine List.filter_congr fun c _ => ?_
  by_cases hc : c = ' '
  · subst hc
    rfl
  · simp [hc]

/-- A member that is written anew differs from the member in blanks only. -/
theorem WellFormed.filter_memberChars {m : Inline} (h : m.WellFormed) :
    m.memberChars.filter (!isBlank ·) = m.spelling := by
  have hplain := h.plain_toJson
  have hplain' := h.settled.plain
  rw [memberChars, spelling]
  cases hv : m.toJson with
  | null => rfl
  | str s =>
    rw [squeezed, memberText, memberText, toList_squeeze]
    exact filter_notBlank_filter_ne s.toList
  | _ =>
    rw [hv] at hplain hplain'
    have hanew := filter_dumpChars spaceless_notBlank hplain'
    rw [squeezed_squeezed hplain] at hanew
    exact hanew.trans (filter_dumpChars spaceless_notBlank hplain).symm

theorem parseEach_members {fs : List (AsciiWord × Inline)}
    (h : ∀ f ∈ fs, Shape.parse f.2.memberChars = .ok f.2.shape) :
    Shape.parseEach Shape.parse (fs.map fun f => f.2.memberChars) =
      .ok (fs.map fun f => f.2.shape) := by
  induction fs with
  | nil => rfl
  | cons f fs ih =>
    have hf := h f (by simp)
    have hfs := ih fun g hg => h g (List.mem_cons_of_mem _ hg)
    rw [List.map_cons, Shape.parseEach, hf, hfs, List.map_cons]

theorem zipWith_named (fs : List (AsciiWord × Inline)) :
    List.zipWith (fun (p : Json × List Char) s => Shape.named p.1 s) (memberTextsOf fs)
      (fs.map fun f => f.2.shape) = shapeEach fs := by
  rw [shapeEach_eq_map]
  induction fs with
  | nil => rfl
  | cons f fs ih =>
    rw [List.map_cons, List.map_cons, ← ih]
    rfl

/-- A bit is shown in decimal. -/
theorem bare_int (n : Int) : (Json.int n).bare = toString n := by
  cases n with
  | ofNat n => rfl
  | negSucc n =>
    have hchars : intChars (Int.negSucc n) = ['-'] ++ Nat.toDigits 10 (n + 1) :=
      if_pos (Int.negSucc_lt_zero n)
    show String.ofList (intChars (Int.negSucc n)) = _
    rw [hchars, String.ofList_append]
    rfl

/-- The shape of a definition is put together from the shapes of its members. -/
theorem assemble_construct {m : Inline} (hd : m.IsDefinition) :
    m.construct.assemble m.text (m.members.map fun f => f.2.shape) = .ok m.shape := by
  cases m with
  | absent => exact hd.elim
  | type s e => exact hd.elim
  | quoted s d => exact hd.elim
  | struct fs => simp only [construct, Construct.assemble, members, zipWith_named, shape]
  | enum vs => simp only [construct, Construct.assemble, members, zipWith_named, shape]
  | variants ns =>
    simp only [construct, Construct.assemble, List.map_map, shape]
    rfl
  | set fs n os =>
    have hflags : (flagsOf (fs ++ os)).map Construct.flagShape = (fs ++ os).map fun f =>
        .leaf { tag := .plain, type := toString f.2, name := .str f.1.toString } := by
      rw [flagsOf, List.map_map]
      refine List.map_congr_left fun f _ => ?_
      simp only [Function.comp_apply, Construct.flagShape, bare_int]
    simp only [construct, Construct.assemble, hflags, shape]

/-- A text that is a member's but for blanks has the shape that the member is meant to have. -/
theorem WellFormed.parse_of_filter {m : Inline} (h : m.WellFormed) {cs : List Char}
    (hcs : cs.filter (!isBlank ·) = m.spelling) : Shape.parse cs = .ok m.shape := by
  -- a definition is parsed if its members are
  have hstep : ∀ {d : Inline}, d.WellFormed → d.IsDefinition →
      (∀ f ∈ d.members, Shape.parse f.2.memberChars = .ok f.2.shape) →
      ∀ {cs : List Char}, cs.filter (!isBlank ·) = d.spelling → Shape.parse cs = .ok d.shape := by
    intro d hwf hd hmembers cs hcs
    rw [Shape.parse_eq, hwf.ofText_eq hd hcs]
    simp only [operands_construct, parseEach_members hmembers]
    exact assemble_construct hd
  induction h generalizing cs with
  -- a missing type is written as the unit
  | absent => exact TypeExpr.Canonical.unit.parse_of_filter (hcs.trans (by decide))
  | @type s e hs he =>
    refine he.parse_of_filter (hcs.trans ?_)
    rw [← e.filter_print, ← hs]
    exact (filter_notBlank_filter_ne s.toList).symm
  | @quoted s d hs hd h ih =>
    -- the text of the member is that of the definition but for blanks, so no layer is spent on it
    have htext : (Inline.quoted s d).spelling = d.spelling.filter (!isBlank ·) := by
      rw [← hs]
      exact (filter_notBlank_filter_ne s.toList).symm
    refine ih (hcs.trans (htext.trans ?_))
    rw [spelling, List.filter_filter]
    simp only [Bool.and_self]
  | @struct fs hn h ih =>
    refine hstep (.struct hn h) trivial (fun f hf => ?_) hcs
    exact ih f hf (h f hf).filter_memberChars
  | @enum vs hn h ih =>
    refine hstep (.enum hn h) trivial (fun v hv => ?_) hcs
    exact ih v hv (h v hv).filter_memberChars
  | variants hn => exact hstep (.variants hn) trivial (by simp [members]) hcs
  | set hn => exact hstep (.set hn) trivial (by simp [members]) hcs

/-! ## Written definitions -/

/-- The JSON text of a definition may stand for it as a text. -/
theorem WellFormed.quoted_dump {d : Inline} (h : d.WellFormed) (hd : d.IsDefinition) :
    (Inline.quoted d.toJson.dump d).WellFormed := by
  refine .quoted ?_ hd h
  rw [dump, String.toList_ofList, h.spelling_eq hd]
  exact filter_dumpChars spaceless_ne h.plain_toJson

/-- The text of a member is that of its value, and for a definition the JSON of it. -/
theorem memberText_toJson {d : Inline} (hd : d.IsDefinition) :
    memberText d.toJson = d.toJson.dumpChars := by
  cases d with
  | absent => exact hd.elim
  | type s e => exact hd.elim
  | quoted s d => exact hd.elim
  | _ => rfl

theorem WellFormed.parseNamed_memberText {m : Inline} (h : m.WellFormed) (name : Json) :
    Shape.parseNamed name (memberText m.toJson) = .ok (m.shape.named name) := by
  rw [Shape.parseNamed, h.parse_of_filter rfl]
  rfl

theorem WellFormed.of_mem_members {d : Inline} (h : d.WellFormed) :
    ∀ f ∈ d.members, f.2.WellFormed := by
  cases h with
  | struct _ h => exact h
  | enum _ h => exact h
  | _ => simp [members]

/-- Whatever name it is given, the JSON text of a definition is parsed as the shape that the
definition is meant to have, with that name at its root; and the shape of each member is what the
text of the member is parsed as under the member's name. -/
theorem parseNamed_dump {d : Inline} (h : d.WellFormed) (hd : d.IsDefinition) (name : Json) :
    Shape.parseNamed name d.toJson.dumpChars = .ok (d.shape.named name) ∧
      ∀ f ∈ d.members, Shape.parseNamed (.str f.1.toString) (memberText f.2.toJson) =
        .ok (f.2.shape.named (.str f.1.toString)) := by
  refine ⟨?_, fun f hf => (h.of_mem_members f hf).parseNamed_memberText _⟩
  rw [← memberText_toJson hd]
  exact h.parseNamed_memberText name

/-- Two rights in sixteen bits. -/
def rights : Inline := .set [(.of "Read".toList, 1)] (some 16) [(.of "Write".toList, 2)]

/-- An account with its rights in a text. -/
def account : Inline :=
  .struct [(.of "id".toList, .type "(u64, Hash)"
      (.tuple [.name (.of "u64".toList), .name (.of "Hash".toList)])),
    (.of "rights".toList, .quoted rights.toJson.dump rights), (.of "note".toList, .absent)]

theorem wellFormed_rights : rights.WellFormed := by
  refine .set ⟨by decide, ?_⟩
  simp only [List.map_cons, List.map_nil, List.cons_append, List.nil_append, List.forall_mem_cons]
  exact ⟨⟨by decide, by decide⟩, ⟨by decide, by decide⟩, by simp⟩

theorem wellFormed_account : account.WellFormed := by
  have hpair : TypeExpr.Canonical
      (.tuple [.name (.of "u64".toList), .name (.of "Hash".toList)]) := by
    have hhash : ¬AsciiWord.IsLookup (.of "Hash".toList) := by
      rintro ⟨n, hn⟩
      exact absurd (List.cons.inj hn).1 (by decide)
    refine .tuple (by decide) ?_
    simp only [List.forall_mem_cons]
    exact ⟨.name (TypeExpr.isPlain_of_start rfl), .name ⟨by decide, hhash⟩, by simp⟩
  refine .struct ⟨by decide, ?_⟩ ?_
  · simp only [List.map_cons, List.map_nil, List.forall_mem_cons]
    exact ⟨⟨by decide, by decide⟩, ⟨by decide, by decide⟩, ⟨by decide, by decide⟩, by simp⟩
  · simp only [List.forall_mem_cons]
    exact ⟨.type (by decide) hpair, wellFormed_rights.quoted_dump trivial, .absent, by simp⟩

theorem parseNamed_account :
    account.WellFormed ∧ account.IsDefinition ∧
      Shape.parseNamed (.str "owner") account.toJson.dumpChars =
        .ok (.group
          { tag := .struct
            type := "\x7b\"id\":\"(u64,Hash)\",\"rights\":\"\x7b\\\"_set\\\":\x7b\\\"Read\\\":1," ++
              "\\\"_bitLength\\\":16,\\\"Write\\\":2\x7d\x7d\",\"note\":null\x7d"
            name := .str "owner" }
          [.group { tag := .tuple, type := "(u64,Hash)", name := .str "id" }
            [.leaf { tag := .plain, type := "u64" }, .leaf { tag := .plain, type := "Hash" }],
          .group
            { tag := .set
              type := "\x7b\"_set\":\x7b\"Read\":1,\"_bitLength\":16,\"Write\":2\x7d\x7d"
              name := .str "rights"
              length := .int 16 }
            [.leaf { tag := .plain, type := "1", name := .str "Read" },
            .leaf { tag := .plain, type := "2", name := .str "Write" }],
          .leaf { tag := .null, type := "Null", name := .str "note" }]) :=
  ⟨wellFormed_account, trivial, (parseNamed_dump wellFormed_account trivial _).1⟩

end ChainTypings.Inline
