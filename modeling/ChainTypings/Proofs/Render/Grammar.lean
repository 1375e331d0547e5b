import ChainTypings.Proofs.Json.Strings
import ChainTypings.Proofs.Bracket.Nested
import ChainTypings.Proofs.Render.Formatting
import ChainTypings.Proofs.Render.Given

/-!
# The grammar of rendered types

If the names that shapes bring in are words, every text that a shape is rendered as derives from a
grammar of six forms (`Derives`), however its labels are spelt: a label is stripped to characters
that neither end its quotes nor escape them. Outside the quotes the brackets of such a text pair up
kind by kind (`Derives.balances`).
-/

namespace ChainTypings

open Text ChainTypings.Bracket

/-! ## Words, labels and keys -/

/-- The text is a word of ASCII letters, digits and underscores. -/
structure IsAsciiWord (text : String) : Prop where
  ne_nil : text.toList ≠ []
  ascii : ∀ c ∈ text.toList, isAsciiWordChar c = true

/-- The punctuation that a label may hold. -/
def labelPunctuation : List Char := ['<', '>', '[', ']', '(', ')', ',', ';']

/-- The text may stand between the quotes of a label. -/
structure IsLabel (text : String) : Prop where
  ne_nil : text.toList ≠ []
  chars : ∀ c ∈ text.toList, isWordChar c = true ∨ c ∈ labelPunctuation

/-- No label holds a quote, a backslash or white space. -/
theorem IsLabel.not_mem {text : String} (h : IsLabel text) :
    ∀ c ∈ text.toList, c ≠ '\'' ∧ c ≠ '\\' ∧ isBlank c = false := by
  intro c hc
  rcases h.chars c hc with hword | hmark
  · refine ⟨ne_of_isWordChar hword (by decide), ne_of_isWordChar hword (by decide), ?_⟩
    cases hblank : isBlank c with
    | false => rfl
    | true => rw [isWordChar_eq_false_of_isBlank hblank] at hword; exact hword.symm
  · have hall : labelPunctuation.all
        (fun c => c ≠ '\'' ∧ c ≠ '\\' ∧ isBlank c = false) = true := by decide
    exact of_decide_eq_true (List.all_eq_true.1 hall c hmark)

theorem isLabel_of_labelFor? {type typeName label : String}
    (h : Label.labelFor? type typeName = some label) : IsLabel label := by
  obtain ⟨rfl, hne, -⟩ := Label.of_labelFor? h
  constructor
  · rwa [String.toList_ofList]
  · intro c hc
    rw [String.toList_ofList] at hc
    have hchar : Label.isLabelChar c = true := (List.mem_filter.1 hc).2
    simpa [Label.isLabelChar, labelPunctuation] using hchar

theorem isAsciiWord_placeKey (index : Nat) : IsAsciiWord (Scope.placeKey index) := by
  have hchars : (Scope.placeKey index).toList = "unknown".toList ++ Nat.toDigits 10 index := by
    rw [Scope.placeKey, String.toList_append]
    congr 1
    simp [toString, Nat.repr]
  constructor
  · rw [hchars]
    simp
  · rw [hchars]
    intro c hc
    rcases List.mem_append.1 hc with hc | hc
    · exact List.all_eq_true.1 (by decide : "unknown".toList.all isAsciiWordChar = true) c hc
    · exact isAsciiWordChar_of_isDigit (Json.isDigit_of_mem_decimal c hc)

/-! ## Derivations -/

/-- Every key is a word: the name of a field or else the place at which it stands. -/
def AreKeyed (isField : String → Prop) (fs : List (String × String)) : Prop :=
  ∀ (i : Nat) (key type : String), fs[i]? = some (key, type) →
    IsAsciiWord key ∧ (isField key ∨ key = "unknown" ++ toString i)

theorem AreKeyed.isAsciiWord {isField : String → Prop} {fs : List (String × String)}
    (h : AreKeyed isField fs) {f : String × String} (hf : f ∈ fs) : IsAsciiWord f.1 := by
  obtain ⟨i, hi⟩ := List.mem_iff_getElem?.1 hf
  exact (h i f.1 f.2 hi).1

/-- The text is a type of the target language: a word, a word with one or two types in angle
brackets, a list of types as a tuple, a labelled word, or the fields of a structure in the given
layout. -/
inductive Derives (layout : Layout) (isField : String → Prop) : String → Prop
  | word {w} : IsAsciiWord w → Derives layout isField w
  | one {w a} : IsAsciiWord w → Derives layout isField a →
      Derives layout isField (w ++ "<" ++ a ++ ">")
  | two {w a b} : IsAsciiWord w → Derives layout isField a → Derives layout isField b →
      Derives layout isField (w ++ "<" ++ a ++ ", " ++ b ++ ">")
  | tuple {as} : (∀ a ∈ as, Derives layout isField a) →
      Derives layout isField ("ITuple<[" ++ String.intercalate ", " as ++ "]>")
  | labelled {label w} : IsLabel label → IsAsciiWord w →
      Derives layout isField ("As<'" ++ label ++ "', " ++ w ++ ">")
  | fields {fs} : layout = .oneLine → AreKeyed isField fs →
      (∀ f ∈ fs, Derives layout isField f.2) →
      Derives layout isField ("\x7b " ++
        String.intercalate " " (fs.map fun f => f.1 ++ ": " ++ f.2 ++ ";") ++ " \x7d & Struct")
  | fieldLines {fs} : layout = .multiLine → AreKeyed isField fs →
      (∀ f ∈ fs, Derives layout isField f.2) →
      Derives layout isField ("\x7b\n" ++
        String.intercalate "\n" (fs.map fun f => "    readonly " ++ f.1 ++ ": " ++ f.2 ++ ";") ++
        "\n  \x7d & Struct")

/-! ## Brackets outside quotes -/

/-- The characters of a text outside apostrophes; `quoted` tells whether the text starts within. -/
def outsideQuotes (quoted : Bool) : List Char → List Char
  | [] => []
  | c :: cs =>
    if c = '\'' then outsideQuotes (!quoted) cs
    else if quoted then outsideQuotes quoted cs
    else c :: outsideQuotes quoted cs

/-- The text closes its quotes, and outside of them its brackets pair up kind by kind. -/
def Balances (cs : List Char) : Prop :=
  ∃ ds, Nested (fun _ => True) ds ∧
    ∀ rest, outsideQuotes false (cs ++ rest) = ds ++ outsideQuotes false rest

namespace Balances

variable {cs ds : List Char}

theorem outside (h : Balances cs) : Nested (fun _ => True) (outsideQuotes false cs) := by
  obtain ⟨ds, hds, hrest⟩ := h
  have hcs := hrest []
  rw [List.append_nil, outsideQuotes, List.append_nil] at hcs
  rwa [hcs]

theorem append (h : Balances cs) (h' : Balances ds) : Balances (cs ++ ds) := by
  obtain ⟨outer, houter, hrest⟩ := h
  obtain ⟨outer', houter', hrest'⟩ := h'
  refine ⟨outer ++ outer', houter.append houter', fun rest => ?_⟩
  rw [List.append_assoc, hrest, hrest', List.append_assoc]

theorem outsideQuotes_append (h : '\'' ∉ cs) (rest : List Char) :
    outsideQuotes false (cs ++ rest) = cs ++ outsideQuotes false rest := by
  induction cs with
  | nil => rfl
  | cons c cs ih =>
    rw [List.mem_cons, not_or] at h
    rw [List.cons_append, outsideQuotes, if_neg (Ne.symm h.1), if_neg Bool.false_ne_true, ih h.2,
      List.cons_append]

/-- Text without quotes and brackets. -/
theorem plain (h : ∀ c ∈ cs, c ≠ '\'' ∧ isOpener c = false ∧ isCloser c = false) :
    Balances cs :=
  ⟨cs, .of_forall (fun c hc => (h c hc).2.1) (fun c hc => (h c hc).2.2) fun _ _ => trivial,
    outsideQuotes_append fun hc => (h _ hc).1 rfl⟩

theorem bracket {o k : Char} (hk : closerOf? o = some k) (h : Balances cs) :
    Balances (o :: (cs ++ [k])) := by
  obtain ⟨outer, houter, hrest⟩ := h
  have hquotes : o ≠ '\'' ∧ k ≠ '\'' := by
    unfold closerOf? at hk
    split at hk
    all_goals first | (obtain rfl := Option.some.inj hk; decide) | cases hk
  refine ⟨o :: (outer ++ [k]), houter.bracket hk, fun rest => ?_⟩
  rw [List.cons_append, outsideQuotes, if_neg hquotes.1, if_neg Bool.false_ne_true,
    List.append_assoc, hrest, List.singleton_append, outsideQuotes, if_neg hquotes.2,
    if_neg Bool.false_ne_true, List.cons_append, List.append_assoc, List.singleton_append]

/-- Text in quotes, whatever brackets it holds. -/
theorem quoted (h : '\'' ∉ cs) : Balances ('\'' :: (cs ++ ['\''])) := by
  have hinside : ∀ rest, outsideQuotes true (cs ++ '\'' :: rest) = outsideQuotes false rest := by
    intro rest
    induction cs with
    | nil => rfl
    | cons c cs ih =>
      rw [List.mem_cons, not_or] at h
      rw [List.cons_append, outsideQuotes, if_neg (Ne.symm h.1), if_pos rfl, ih h.2]
  refine ⟨[], .nil, fun rest => ?_⟩
  rw [List.cons_append, outsideQuotes, if_pos rfl, List.append_assoc]
  exact hinside rest

theorem intercalate {separator : String} {texts : List String}
    (hs : Balances separator.toList) (h : ∀ t ∈ texts, Balances t.toList) :
    Balances (String.intercalate separator texts).toList := by
  induction texts with
  | nil => exact .plain (by simp)
  | cons t texts ih =>
    have ht := h t (by simp)
    have htexts := ih fun u hu => h u (List.mem_cons_of_mem _ hu)
    cases texts with
    | nil => simpa using ht
    | cons u texts =>
      rw [String.intercalate_cons_cons, String.toList_append, String.toList_append]
      exact (ht.append hs).append htexts

end Balances

theorem IsAsciiWord.balances {w : String} (h : IsAsciiWord w) : Balances w.toList := by
  refine .plain fun c hc => ?_
  have hword := isWordChar_of_isAsciiWordChar (h.ascii c hc)
  exact ⟨ne_of_isWordChar hword (by decide), isOpener_eq_false_of_isWordChar hword,
    isCloser_eq_false_of_isWordChar hword⟩

/-- Outside the quotes the brackets of a derived text pair up. -/
theorem Derives.balances {layout : Layout} {isField : String → Prop} {text : String}
    (h : Derives layout isField text) : Balances text.toList := by
  have plain : ∀ cs : List Char, cs.all (fun c => c ≠ '\'' && !isOpener c && !isCloser c) = true →
      Balances cs := by
    intro cs hcs
    refine .plain fun c hc => ?_
    simpa [and_assoc] using List.all_eq_true.1 hcs c hc
  have field : ∀ key type : String, IsAsciiWord key → Balances type.toList →
      Balances (key.toList ++ ": ".toList ++ type.toList ++ ";".toList) := by
    intro key type hkey htype
    have h := hkey.balances.append (plain ": ".toList (by decide))
    exact (h.append htype).append (plain ";".toList (by decide))
  induction h with
  | word hw => exact hw.balances
  | @one w a hw _ ih =>
    have h := hw.balances.append (ih.bracket (o := '<') rfl)
    simpa using h
  | @two w a b hw _ _ iha ihb =>
    have h := hw.balances.append
      (((iha.append (plain ", ".toList (by decide))).append ihb).bracket (o := '<') rfl)
    simpa using h
  | @tuple as _ ih =>
    have hinner := (Balances.intercalate (plain ", ".toList (by decide)) ih).bracket (o := '[') rfl
    have h := (plain "ITuple".toList (by decide)).append (hinner.bracket (o := '<') rfl)
    simpa using h
  | @labelled label w hlabel hw =>
    have hquoted := Balances.quoted fun hc => (hlabel.not_mem _ hc).1 rfl
    have hinner := (hquoted.append (plain ", ".toList (by decide))).append hw.balances
    have h := (plain "As".toList (by decide)).append (hinner.bracket (o := '<') rfl)
    simpa using h
  | @fields fs _ hkeys _ ih =>
    have hfields : ∀ t ∈ fs.map (fun f => f.1 ++ ": " ++ f.2 ++ ";"), Balances t.toList := by
      intro t ht
      obtain ⟨f, hf, rfl⟩ := List.mem_map.1 ht
      simpa using field f.1 f.2 (hkeys.isAsciiWord hf) (ih f hf)
    have hinner := (plain " ".toList (by decide)).append
      ((Balances.intercalate (plain " ".toList (by decide)) hfields).append
        (plain " ".toList (by decide)))
    have h := (hinner.bracket (o := '{') rfl).append (plain " & Struct".toList (by decide))
    simpa using h
  | @fieldLines fs _ hkeys _ ih =>
    have hfields : ∀ t ∈ fs.map (fun f => "    readonly " ++ f.1 ++ ": " ++ f.2 ++ ";"),
        Balances t.toList := by
      intro t ht
      obtain ⟨f, hf, rfl⟩ := List.mem_map.1 ht
      have h := (plain "    readonly ".toList (by decide)).append
        (field f.1 f.2 (hkeys.isAsciiWord hf) (ih f hf))
      simpa using h
    have hinner := (plain "\n".toList (by decide)).append
      ((Balances.intercalate (plain "\n".toList (by decide)) hfields).append
        (plain "\n  ".toList (by decide)))
    have h := (hinner.bracket (o := '{') rfl).append (plain " & Struct".toList (by decide))
    simpa using h

/-! ## Expressions -/

/-- The names that the heads of a shape bring in are words, and those of fields are known. -/
structure Shape.Wordy (isField : String → Prop) (shape : Shape) : Prop where
  spelt : shape.Spelt IsAsciiWord
  labels : ∀ h ∈ shape.heads, ∀ n, h.label? = some n → isField n ∧ IsAsciiWord n

theorem Shape.Wordy.beneath {isField : String → Prop} {shape c : Shape} (h : shape.Wordy isField)
    (hc : c ∈ shape.children) : c.Wordy isField where
  spelt := fun k hk => h.spelt k (mem_heads_of_mem_children hc hk)
  labels := fun k hk => h.labels k (mem_heads_of_mem_children hc hk)

namespace Scope

variable {s : Scope} {layout : Layout} {isField : String → Prop} {e : Expr}

theorem isAsciiWord_marker {n : String} (hn : n ∈ markers) : IsAsciiWord n := by
  have hall : ∀ n ∈ markers, n.toList ≠ [] ∧ n.toList.all isAsciiWordChar = true := by
    decide +kernel
  obtain ⟨hne, hword⟩ := hall n hn
  exact ⟨hne, List.all_eq_true.1 hword⟩

theorem derives_named {type : String} (htype : IsAsciiWord type) {typeName : Option String}
    (h : (s.named type typeName).outcome = .ok e) :
    Derives layout isField (e.print layout) := by
  rcases ok_named h with rfl | ⟨label, hlabel, rfl⟩
  · exact .word htype
  · obtain ⟨name, _, hlabel⟩ := Option.bind_eq_some_iff.1 hlabel
    exact .labelled (isLabel_of_labelFor? hlabel) htype

/-- The key at a place is the name of the part there, or the place. -/
theorem areKeyed_fieldKeys {ps : List Part} {es : List Expr}
    (h : ∀ p ∈ ps, ∀ n, p.head.label? = some n → isField n ∧ IsAsciiWord n) :
    AreKeyed isField (((fieldKeys 0 ps).zip es).map fun f => (f.1, f.2.print layout)) := by
  intro i key type hkey
  rw [List.getElem?_map, Option.map_eq_some_iff] at hkey
  obtain ⟨f, hf, heq⟩ := hkey
  obtain ⟨rfl, -⟩ := Prod.mk.inj heq
  have hplace := (List.getElem?_zip_eq_some.1 hf).1
  rw [fieldKeys, List.getElem?_map, List.getElem?_zipIdx, Option.map_map, Option.map_eq_some_iff]
    at hplace
  obtain ⟨p, hp, hkey⟩ := hplace
  rw [← hkey]
  cases hlabel : p.head.label? with
  | some n =>
    obtain ⟨hfield, hword⟩ := h p (List.mem_of_getElem? hp) n hlabel
    simpa [hlabel] using ⟨hword, .inl hfield⟩
  | none => simpa [hlabel] using ⟨isAsciiWord_placeKey i, .inr rfl⟩

theorem printFields_eq_map (layout : Layout) (fields : List (String × Expr)) :
    Expr.printFields layout fields = fields.map fun f => layout.field f.1 (f.2.print layout) := by
  induction fields with
  | nil => rfl
  | cons f fields ih => rw [Expr.printFields, ih, List.map_cons]

theorem derives_struct {fields : List (String × Expr)}
    (hkeys : AreKeyed isField (fields.map fun f => (f.1, f.2.print layout)))
    (h : ∀ f ∈ fields, Derives layout isField (f.2.print layout)) :
    Derives layout isField ((Expr.struct fields).print layout) := by
  have htypes : ∀ f ∈ fields.map (fun f => (f.1, f.2.print layout)),
      Derives layout isField f.2 := by
    intro f hf
    obtain ⟨g, hg, rfl⟩ := List.mem_map.1 hf
    exact h g hg
  rw [Expr.print, printFields_eq_map]
  cases layout with
  | oneLine =>
    have hderives := Derives.fields rfl hkeys htypes
    rwa [List.map_map] at hderives
  | multiLine =>
    have hderives := Derives.fieldLines rfl hkeys htypes
    rwa [List.map_map] at hderives

theorem derives_tuple {es : List Expr} (h : ∀ e ∈ es, Derives layout isField (e.print layout)) :
    Derives layout isField ((Expr.tuple es).print layout) := by
  have htypes : ∀ t ∈ es.map (Expr.print layout), Derives layout isField t := by
    intro t ht
    obtain ⟨e, he, rfl⟩ := List.mem_map.1 ht
    exact h e he
  have hprint : (Expr.tuple es).print layout =
      "ITuple<[" ++ String.intercalate ", " (es.map (Expr.print layout)) ++ "]>" := by
    rw [Expr.print, TypeExpr.printEach_eq_map, TypeExpr.application_one]
    exact String.toList_inj.1 (by simp)
  rw [hprint]
  exact .tuple htypes

/-- The names of the part are words, that as a field is known, and what the part is rendered as
prints as a derived text. -/
structure DerivesPart (layout : Layout) (isField : String → Prop) (p : Part) : Prop where
  declared : ∀ n, p.head.alias? = some n → IsAsciiWord n
  label : ∀ n, p.head.label? = some n → isField n ∧ IsAsciiWord n
  rendered : ∀ hint e, (p.render hint).outcome = .ok e → Derives layout isField (e.print layout)

namespace DerivesPart

variable {p : Part}

theorem argument (hp : DerivesPart layout isField p) {hint : Option String}
    (h : (argument p hint).outcome = .ok e) : Derives layout isField (e.print layout) := by
  rcases ok_argument h with ⟨n, hn, rfl⟩ | h
  · exact .word (hp.declared n hn)
  · exact hp.rendered hint e h

theorem renderMember (hp : DerivesPart layout isField p)
    (h : (s.renderMember p).outcome = .ok e) : Derives layout isField (e.print layout) := by
  rcases ok_renderMember h with ⟨n, hn, h⟩ | h
  · exact derives_named (hp.declared n hn) h
  · exact hp.rendered _ e h

theorem renderMembers {ps : List Part} (hps : ∀ p ∈ ps, DerivesPart layout isField p)
    {es : List Expr} (h : (Trail.mapEach s.renderMember ps).outcome = .ok es) :
    ∀ e ∈ es, Derives layout isField (e.print layout) := by
  intro e he
  obtain ⟨p, hp, hok⟩ := Trail.exists_of_mem_mapEach h he
  exact (hps p hp).renderMember hok

end DerivesPart

/-- What a rule gives prints as a derived text if what the parts and the entries are rendered as
does. -/
theorem derives_of_given {follow : Shape → Trail Expr} {shape : Shape} {parts : Parts}
    (hhead : shape.head.Spelt IsAsciiWord)
    (hparts : ∀ p ∈ parts.toList, DerivesPart layout isField p)
    (hf : ∀ h entry, s.target h = .ok entry → ∀ e, (follow entry).outcome = .ok e →
      Derives layout isField (e.print layout))
    (h : Given s follow shape parts e) : Derives layout isField (e.print layout) := by
  cases h with
  | declared hn => exact .word (hhead.declared _ hn)
  | marker hn => exact .word (isAsciiWord_marker hn)
  | plain htag he => exact derives_named (hhead.plain htag) he
  | wrap hw hp ha =>
    rw [Expr.print, TypeExpr.application_one]
    exact .one (isAsciiWord_marker hw) ((hparts _ hp).argument ha)
  | wrapTwo hw hp hq ha hb =>
    rw [Expr.print, TypeExpr.application_two]
    exact .two (isAsciiWord_marker hw) ((hparts _ hp).argument ha) ((hparts _ hq).argument hb)
  | tuple hes => exact derives_tuple (DerivesPart.renderMembers hparts hes)
  | struct _ _ hes =>
    have htypes := DerivesPart.renderMembers hparts hes
    refine derives_struct (areKeyed_fieldKeys fun p hp => (hparts p hp).label) fun f hf => ?_
    exact htypes _ (List.of_mem_zip hf).2
  | followed hentry he => exact hf _ _ hentry _ he

/-- Whatever is rendered prints as a derived text. -/
theorem derives_renderShape {follow : Shape → Trail Expr}
    (hf : ∀ h entry, s.target h = .ok entry → ∀ e, (follow entry).outcome = .ok e →
      Derives layout isField (e.print layout))
    {shape : Shape} (hs : shape.Wordy isField) {hint : Option String}
    (h : (s.renderShape follow shape hint).outcome = .ok e) :
    Derives layout isField (e.print layout) := by
  induction shape using Shape.induction_children generalizing hint e with
  | step shape ih =>
    have hparts : ∀ p ∈ (s.beneath follow shape).toList, DerivesPart layout isField p := by
      intro p hp
      obtain ⟨c, hc, rfl⟩ := s.mem_beneath follow hp
      have hchild := hs.beneath hc
      exact ⟨(hchild.spelt _ c.head_mem_heads).declared, hchild.labels _ c.head_mem_heads,
        fun hint e he => ih c hc hchild he⟩
    exact derives_of_given (hs.spelt _ shape.head_mem_heads) hparts hf (given_of_renderShape h)

theorem derives_renderWithin (hr : ∀ e ∈ s.registry.entries, e.2.Wordy isField) (hops : Nat)
    {shape : Shape} (hs : shape.Wordy isField) {hint : Option String}
    (h : (s.renderWithin hops shape hint).outcome = .ok e) :
    Derives layout isField (e.print layout) := by
  induction hops generalizing shape hint e with
  | zero =>
    refine derives_renderShape (fun _ _ _ e he => ?_) hs h
    cases he
  | succ hops ih =>
    refine derives_renderShape (fun _ entry hentry e he => ?_) hs h
    obtain ⟨k, hk⟩ := exists_mem_of_target hentry
    exact ih (hr _ hk) he

end Scope

/-! ## Texts -/

/-- The names that the head brings in, and its name as a field, are words. -/
structure Head.Wordy (h : Head) : Prop where
  spelt : h.Spelt IsAsciiWord
  label : ∀ n, h.label? = some n → IsAsciiWord n

/-- A field of the shape or of an entry has the name. -/
def Registry.HasField (r : Registry) (shape : Shape) (n : String) : Prop :=
  (∃ h ∈ shape.heads, h.label? = some n) ∨ ∃ e ∈ r.entries, ∃ h ∈ e.2.heads, h.label? = some n

namespace Call

/-- If the names that a shape and the entries bring in are words, whatever the shape is formatted
as derives from the grammar, and its brackets pair up outside the quotes. -/
theorem derives_of_format {r : Registry} (hr : ∀ e ∈ r.entries, ∀ h ∈ e.2.heads, h.Wordy)
    {shape : Shape} (hs : ∀ h ∈ shape.heads, h.Wordy) (l : Ledger) (layout : Layout)
    (hint : Option String) {text : String}
    (h : (format r layout (.shape shape) hint).outcome l = .ok (some text)) :
    Derives layout (r.HasField shape) text ∧
      Nested (fun _ => True) (outsideQuotes false text.toList) := by
  have hentries : ∀ e ∈ r.entries, e.2.Wordy (r.HasField shape) := fun e he =>
    ⟨fun h hh => (hr e he h hh).spelt,
      fun h hh n hn => ⟨.inr ⟨e, he, h, hh, hn⟩, (hr e he h hh).label n hn⟩⟩
  have hshape : shape.Wordy (r.HasField shape) :=
    ⟨fun h hh => (hs h hh).spelt, fun h hh n hn => ⟨.inl ⟨h, hh, hn⟩, (hs h hh).label n hn⟩⟩
  obtain ⟨e, he, rfl⟩ := (format_eq_iff r l layout hint shape text).1 h
  have hderives : Derives layout (r.HasField shape) (e.print layout) :=
    Scope.derives_renderWithin (s := ⟨r, l.ignored⟩) hentries _ hshape he
  exact ⟨hderives, hderives.balances.outside⟩

/-- A structure of a field with a hint that is no type text, and one without a name. -/
def bid : Shape :=
  .group { tag := .struct, type := "Bid" }
    [.leaf { tag := .plain, type := "u8", name := .str "at", typeName := .str "It's\\ a <T" },
     .single { tag := .option, type := "Option<u32>" }
      (.leaf { tag := .si, type := "Lookup0", lookupIndex := .int 0 })]

/-- A registry of which a plain type is the one entry. -/
def plainRegistry : Registry where
  entries := [(.number 0 0, .leaf { tag := .plain, type := "u32", lookupIndex := .int 0 })]
  known := ["u8", "u32"]

/-- The text that the structure is formatted as: the angle bracket of its hint stays within the
quotes, and the apostrophe, the backslash and the blank are gone. -/
def bidText : String := "\x7b at: As<'Itsa<T', u8>; unknown1: Option<u32>; \x7d & Struct"

theorem derives_bid :
    (format plainRegistry .oneLine (.shape bid) (some "'>")).outcome (.empty [] []) =
        .ok (some bidText) ∧
      Derives .oneLine (plainRegistry.HasField bid) bidText ∧
      Nested (fun _ => True) (outsideQuotes false bidText.toList) := by
  have wordy : ∀ h : Head, (∀ n ∈ h.alias?.toList ++ h.label?.toList ++
      (if h.tag = .plain then [h.type] else []),
        n.toList ≠ [] ∧ n.toList.all isAsciiWordChar = true) → h.Wordy := by
    intro h hall
    have hword : ∀ n ∈ h.alias?.toList ++ h.label?.toList ++
        (if h.tag = .plain then [h.type] else []), IsAsciiWord n :=
      fun n hn => ⟨(hall n hn).1, List.all_eq_true.1 (hall n hn).2⟩
    refine ⟨⟨fun n hn => hword n ?_, fun ht => hword h.type ?_⟩, fun n hn => hword n ?_⟩
    · simp [hn]
    · simp [ht]
    · simp [hn]
  have hentries : ∀ e ∈ plainRegistry.entries, ∀ h ∈ e.2.heads, h.Wordy := by
    intro e he h hh
    refine wordy h ?_
    revert h e
    decide +kernel
  have hshape : ∀ h ∈ bid.heads, h.Wordy := by
    intro h hh
    refine wordy h ?_
    revert h
    decide +kernel
  have hok : (format plainRegistry .oneLine (.shape bid) (some "'>")).outcome (.empty [] []) =
      .ok (some bidText) := by
    have hrun : ((format plainRegistry .oneLine (.shape bid) (some "'>")).outcome
        (.empty [] [])).toOption = some (some bidText) := by
      decide +kernel
    generalize (format plainRegistry .oneLine (.shape bid) (some "'>")).outcome
      (.empty [] []) = r at hrun
    cases r with
    | error e => cases hrun
    | ok text => rw [Option.some.inj hrun]
  exact ⟨hok, derives_of_format hentries hshape _ _ _ hok⟩

end Call

end ChainTypings
