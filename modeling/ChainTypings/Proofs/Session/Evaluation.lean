import ChainTypings.Proofs.Import.Mentioned
import ChainTypings.Proofs.Session.Invariant
import ChainTypings.Proofs.Shape.Valence
import ChainTypings.Proofs.Spelling.Balance
import ChainTypings.Proofs.Spelling.Flattening

/-!
# Reading a type text ends

Reading a type text calls itself on the texts beneath, recording the names of a type calls itself on
the names beneath, and the normal spelling has two loops: boxes are opened one by one, and elements
lose their parentheses round by round. A `Job` is such a call or such a round. How long its text
is says nothing about how much is left to do, for a normal spelling may be longer than the text and
the strings in an inline definition hold more brackets than are seen from outside. What falls with
every call is the weight of the text, and within a loop the length: `Job.Before` compares these
measures, and it is well-founded.

`Parses n text r` is a derivation that reading the text ends in `r` after `n` calls and rounds, and
`Records` the same for recording names. Wherever a rule has one job enter another, its premise is
that the second comes `Before` the first. `exists_parses` and `exists_records` build these
derivations for every text.
-/

namespace ChainTypings

open Text Spelling Import

/-! ## Jobs -/

/-- A call on type texts, or a round of one of the two loops on them. -/
inductive Job where
  /-- A round of opening boxes. -/
  | openBoxes (text : List Char)
  /-- A round of dropping parentheses. -/
  | dropParentheses (text : List Char)
  | parse (text : List Char)
  /-- Recording the names of types. -/
  | record (types : List String)

namespace Job

/-- What a type adds to recording it: nothing unless it is taken apart. -/
def load (type : String) : Nat := if isCompound type.toList then weight type.toList + 2 else 0

/-- The most that one of the types adds. -/
def heaviest : List String → Nat
  | [] => 0
  | type :: types => max (load type) (heaviest types)

/-- What falls from job to job: the weight first, then the length of the text in a loop. -/
def measure : Job → Nat × Nat
  | openBoxes text => (0, text.length)
  | dropParentheses text => (0, text.length)
  | parse text => (weight text + 1, 0)
  | record types => (heaviest types, 0)

/-- The first job has the smaller measure. -/
def Before (t u : Job) : Prop := Prod.Lex (· < ·) (· < ·) t.measure u.measure

theorem wellFounded_before : WellFounded Before :=
  InvImage.wf measure (Prod.lex Nat.lt_wfRel Nat.lt_wfRel).wf

theorem before_of_length {text shorter : List Char} (h : shorter.length < text.length) :
    Before (openBoxes shorter) (openBoxes text) ∧
      Before (dropParentheses shorter) (dropParentheses text) :=
  ⟨.right 0 h, .right 0 h⟩

/-- Both loops come before the call that enters them, however long their text. -/
theorem before_parse (text inner : List Char) :
    Before (openBoxes inner) (parse text) ∧ Before (dropParentheses inner) (parse text) :=
  ⟨.left _ _ (Nat.succ_pos _), .left _ _ (Nat.succ_pos _)⟩

theorem parse_before_parse {text lighter : List Char} (h : weight lighter < weight text) :
    Before (parse lighter) (parse text) := .left _ _ (Nat.succ_lt_succ h)

theorem load_le_heaviest {type : String} {types : List String} (h : type ∈ types) :
    load type ≤ heaviest types := by
  induction types with
  | nil => exact absurd h List.not_mem_nil
  | cons first types ih =>
    rw [heaviest]
    rcases List.mem_cons.1 h with rfl | h
    · exact Nat.le_max_left _ _
    · exact Nat.le_trans (ih h) (Nat.le_max_right _ _)

theorem heaviest_lt {types : List String} {n : Nat} (hn : 0 < n)
    (h : ∀ type ∈ types, load type < n) : heaviest types < n := by
  induction types with
  | nil => exact hn
  | cons first types ih =>
    rw [heaviest, Nat.max_lt]
    exact ⟨h first (by simp), ih fun type htype => h type (List.mem_cons_of_mem _ htype)⟩

/-- A type that is taken apart is parsed before the names in it are all recorded. -/
theorem parse_before_record {type : String} {types : List String} (hmem : type ∈ types)
    (hc : isCompound type.toList = true) : Before (parse type.toList) (record types) := by
  have hload : load type = weight type.toList + 2 := by rw [load, if_pos hc]
  have hle := load_le_heaviest hmem
  exact .left _ _ (by omega)

end Job

open Job (Before heaviest load)

/-! ## The loops of the normal spelling -/

/-- Opening boxes turns the first text into the second in so many rounds. -/
inductive Unboxes : Nat → List Char → List Char → Prop
  | stays {text} : dropBox? text = none → Unboxes 1 text text
  | opens {n text shorter out} : dropBox? text = some shorter →
    Before (.openBoxes shorter) (.openBoxes text) → Unboxes n shorter out → Unboxes (n + 1) text out

/-- Dropping parentheses turns the first text into the second in so many rounds, of which the last
changes nothing. -/
inductive Flattens : Nat → List Char → List Char → Prop
  | stays {text} : oneElement.apply text = text → Flattens 1 text text
  | drops {n text out} : oneElement.apply text ≠ text →
    Before (.dropParentheses (oneElement.apply text)) (.dropParentheses text) →
    Flattens n (oneElement.apply text) out → Flattens (n + 1) text out

/-- The normal spelling of the first text is the second, found in so many rounds. -/
inductive Normalizes : Nat → List Char → List Char → Prop
  | passes {n m text packed value} :
    Before (.openBoxes (compact text)) (.parse text) → Unboxes n (compact text) packed →
    Before (.dropParentheses (bytesAlias.apply (textAlias.apply packed))) (.parse text) →
    Flattens m (bytesAlias.apply (textAlias.apply packed)) value → Normalizes (n + m) text value

theorem exists_unboxes (text : List Char) : ∃ n, Unboxes n text (unbox text) := by
  fun_induction unbox text with
  | case1 text shorter hdrop ih =>
    obtain ⟨n, hn⟩ := ih
    exact ⟨n + 1, .opens hdrop (Job.before_of_length (dropBox?_shorter hdrop)).1 hn⟩
  | case2 text hdrop => exact ⟨1, .stays hdrop⟩

theorem exists_flattens (text : List Char) : ∃ n, Flattens n text (flatten text) := by
  fun_induction flatten text with
  | case1 text once hshorter ih =>
    obtain ⟨n, hn⟩ := ih
    have hchanged : oneElement.apply text ≠ text := by
      intro hsame
      exact absurd (congrArg List.length hsame) (Nat.ne_of_lt hshorter)
    exact ⟨n + 1, .drops hchanged (Job.before_of_length hshorter).2 hn⟩
  | case2 text once hshorter =>
    have hsame : oneElement.apply text = text := oneElement_apply_eq_self hshorter
    have hstays := Flattens.stays hsame
    exact ⟨1, by rwa [show once = text from hsame]⟩

theorem exists_normalizes (text : List Char) : ∃ n, Normalizes n text (normalize text) := by
  obtain ⟨n, hn⟩ := exists_unboxes (compact text)
  obtain ⟨m, hm⟩ := exists_flattens (bytesAlias.apply (textAlias.apply (unbox (compact text))))
  exact ⟨n + m, .passes (Job.before_parse text _).1 hn (Job.before_parse text _).2 hm⟩

/-! ## Parsing -/

mutual

/-- Parsing the text ends in the result after so many calls and rounds. -/
inductive Parses : Nat → List Char → Except ParseError Shape → Prop
  | empty {n text} : Normalizes n text [] →
    Parses (n + 1) text (.error (.empty (String.ofList text)))
  | refused {n text value e} : Normalizes n text value → value ≠ [] →
    Construct.read value = .error e → Parses (n + 1) text (.error e)
  | stopped {n m text value c e} : Normalizes n text value → value ≠ [] →
    Construct.read value = .ok c → ParsesEach m text c.operands (.error e) →
    Parses (n + m + 1) text (.error e)
  | assembled {n m text value c shapes} : Normalizes n text value → value ≠ [] →
    Construct.read value = .ok c → ParsesEach m text c.operands (.ok shapes) →
    Parses (n + m + 1) text (c.assemble (String.ofList value) shapes)

/-- Parsing the operands of a text, in order and up to the first error, ends in the result after so
many calls and rounds. -/
inductive ParsesEach : Nat → List Char → List (List Char) → Except ParseError (List Shape) → Prop
  | nil {text} : ParsesEach 0 text [] (.ok [])
  | fails {n text operand operands e} : Before (.parse operand) (.parse text) →
    Parses n operand (.error e) → ParsesEach n text (operand :: operands) (.error e)
  | later {n m text operand operands shape e} : Before (.parse operand) (.parse text) →
    Parses n operand (.ok shape) → ParsesEach m text operands (.error e) →
    ParsesEach (n + m) text (operand :: operands) (.error e)
  | cons {n m text operand operands shape shapes} : Before (.parse operand) (.parse text) →
    Parses n operand (.ok shape) → ParsesEach m text operands (.ok shapes) →
    ParsesEach (n + m) text (operand :: operands) (.ok (shape :: shapes))

end

theorem exists_parsesEach {text : List Char} {operands : List (List Char)}
    (h : ∀ t ∈ operands, Before (.parse t) (.parse text) ∧ ∃ n, Parses n t (Shape.parse t)) :
    ∃ n, ParsesEach n text operands (Shape.parseEach Shape.parse operands) := by
  induction operands with
  | nil => exact ⟨0, .nil⟩
  | cons t ts ih =>
    obtain ⟨hbefore, n, hn⟩ := h t (by simp)
    obtain ⟨m, hm⟩ := ih fun u hu => h u (List.mem_cons_of_mem _ hu)
    rw [Shape.parseEach]
    cases ht : Shape.parse t with
    | error e =>
      rw [ht] at hn
      exact ⟨n, .fails hbefore hn⟩
    | ok shape =>
      rw [ht] at hn
      cases hts : Shape.parseEach Shape.parse ts with
      | error e =>
        rw [hts] at hm
        exact ⟨n + m, .later hbefore hn hm⟩
      | ok shapes =>
        rw [hts] at hm
        exact ⟨n + m, .cons hbefore hn hm⟩

/-- Every text is parsed in finitely many calls and rounds. -/
theorem exists_parses (text : List Char) : ∃ n, Parses n text (Shape.parse text) := by
  induction hw : weight text using Nat.strongRecOn generalizing text with
  | ind w ih =>
    obtain ⟨n, hn⟩ := exists_normalizes text
    by_cases hempty : normalize text = []
    · rw [hempty] at hn
      have hparse : Shape.parse text = .error (.empty (String.ofList text)) := by
        rw [Shape.parse_eq, Construct.ofText, hempty]
        rfl
      rw [hparse]
      exact ⟨n + 1, .empty hn⟩
    · have hne : (normalize text).isEmpty = false := List.isEmpty_eq_false_iff.2 hempty
      cases hread : Construct.read (normalize text) with
      | error e =>
        have hparse : Shape.parse text = .error e := by
          rw [Shape.parse_eq, Construct.ofText]
          simp only [hne, Bool.false_eq_true, if_false, hread]
        rw [hparse]
        exact ⟨n + 1, .refused hn hempty hread⟩
      | ok c =>
        have hoftext : Construct.ofText text = .ok (normalize text, c) := by
          rw [Construct.ofText]
          simp only [hne, Bool.false_eq_true, if_false, hread]
        -- the operands are lighter than the text, so their derivations are there
        have heach : ∀ t ∈ c.operands, Before (.parse t) (.parse text) ∧
            ∃ n, Parses n t (Shape.parse t) := by
          intro t ht
          have hlighter := Construct.weight_lt_of_ofText hoftext ht
          exact ⟨Job.parse_before_parse hlighter, ih _ (hw ▸ hlighter) t rfl⟩
        obtain ⟨m, hm⟩ := exists_parsesEach heach
        rw [Shape.parse_eq, hoftext]
        dsimp only
        cases hshapes : Shape.parseEach Shape.parse c.operands with
        | error e =>
          rw [hshapes] at hm
          exact ⟨n + m + 1, .stopped hn hempty hread hm⟩
        | ok shapes =>
          rw [hshapes] at hm
          exact ⟨n + m + 1, .assembled hn hempty hread hm⟩

/-! ## Recording names -/

/-- What is recorded for a type that is taken apart: its tag and how the types beneath are referred
to. -/
def Shape.parts (shape : Shape) : List String :=
  shape.head.tag.name :: shape.children.map fun child => child.head.reference

/-- Recording those of the names that are left, in order and up to the first error, mentions what
the trail does and ends as it does, after so many calls and rounds. The second index are the names
that the call was given. -/
inductive Records (ignored : List String) : Nat → List String → List String → Trail Unit → Prop
  | nil {all} : Records ignored 0 all [] (.done ())
  | passed {n all type types t} : stepOf ignored type.toList = .nothing →
    Records ignored n all types t → Records ignored n all (type :: types) t
  | named {n all type types t} : stepOf ignored type.toList = .name →
    Records ignored n all types t →
    Records ignored n all (type :: types) ((Trail.mention type).andThen fun _ => t)
  | refused {n all type types e} : stepOf ignored type.toList = .compound →
    Before (.parse type.toList) (.record all) → Parses n type.toList (.error e) →
    Records ignored n all (type :: types) (.fail (.parse e))
  | stopped {n m all type types shape inner e} : stepOf ignored type.toList = .compound →
    Before (.parse type.toList) (.record all) → Parses n type.toList (.ok shape) →
    Before (.record shape.parts) (.record all) →
    Records ignored m shape.parts shape.parts inner → inner.outcome = .error e →
    Records ignored (n + m + 1) all (type :: types) inner
  | taken {n m k all type types shape inner t} : stepOf ignored type.toList = .compound →
    Before (.parse type.toList) (.record all) → Parses n type.toList (.ok shape) →
    Before (.record shape.parts) (.record all) →
    Records ignored m shape.parts shape.parts inner → inner.outcome = .ok () →
    Records ignored k all types t →
    Records ignored (n + m + 1 + k) all (type :: types) (inner.andThen fun _ => t)

theorem isCompound_of_stepOf {ignored : List String} {cs : List Char}
    (h : stepOf ignored cs = .compound) : isCompound cs = true := by
  unfold stepOf at h
  dsimp only at h
  split at h
  · cases h
  · split at h
    · cases h
    · split at h
      · cases h
      · split at h
        · next hc => exact hc
        · cases h

/-- No tag is taken apart. -/
theorem isCompound_tag (tag : Tag) : isCompound tag.name.toList = false := by
  cases tag <;> rfl

theorem mentionsOf_tag (ignored : List String) (tag : Tag) :
    mentionsOf ignored tag.name = note ignored tag.name := by
  rw [note_eq]
  refine mentionsOf_word ignored ?_ (isWord_of_all ?_)
  · cases tag <;> decide
  · cases tag <;> decide

namespace Shape

variable {text : List Char} {shape : Shape}

/-- A parsed type is referred to by its text. -/
theorem reference_of_parse (h : parse text = .ok shape) :
    ∀ child ∈ shape.children, child.head.reference = child.head.type := by
  intro child hchild
  have hundeclared := ((everywhere_parse h).beneath hchild).here.undeclared
  rw [Head.reference, Head.alias?, hundeclared]
  rfl

/-- The names in a type that is taken apart add less than the type. -/
theorem heaviest_parts_lt {type : String} {types : List String} (hmem : type ∈ types)
    (hc : isCompound type.toList = true) (h : parse type.toList = .ok shape) :
    heaviest shape.parts < heaviest types := by
  have hload : load type = weight type.toList + 2 := by rw [load, if_pos hc]
  have hle := Job.load_le_heaviest hmem
  refine Job.heaviest_lt (by omega) ?_
  intro part hpart
  rcases List.mem_cons.1 hpart with rfl | hpart
  · rw [load, isCompound_tag]
    simp only [Bool.false_eq_true, if_false]
    omega
  · obtain ⟨child, hchild, rfl⟩ := List.mem_map.1 hpart
    have hlighter := weight_type_lt h hchild
    rw [reference_of_parse h child hchild, load]
    split <;> omega

/-- What a compound type mentions are its parts. -/
theorem mentionsAll_parts (ignored : List String) (h : parse text = .ok shape) :
    mentionsAll ignored shape.parts =
      (note ignored shape.head.tag.name).andThen fun _ =>
        Trail.forEach (fun child => mentions ignored child.head.type.toList) shape.children := by
  have hreferences : shape.children.map (fun child => child.head.reference) =
      shape.children.map fun child => child.head.type :=
    List.map_congr_left (reference_of_parse h)
  rw [mentionsAll, parts, Trail.forEach, mentionsOf_tag, Trail.bind_eq, hreferences,
    Trail.forEach_map]
  rfl

end Shape

/-- Recording names mentions what their trail does in finitely many calls and rounds. -/
theorem exists_records_of_subset (ignored all : List String) : ∀ types, types ⊆ all →
    ∃ n, Records ignored n all types (mentionsAll ignored types) := by
  induction hw : heaviest all using Nat.strongRecOn generalizing all with
  | ind w ih =>
    intro types
    induction types with
    | nil => exact fun _ => ⟨0, .nil⟩
    | cons type types ihtypes =>
      intro hsubset
      obtain ⟨hmem, hsubset⟩ := List.cons_subset.1 hsubset
      obtain ⟨k, hk⟩ := ihtypes hsubset
      rw [mentionsAll, Trail.forEach, mentionsOf, mentions_eq, Trail.bind_eq]
      cases hstep : stepOf ignored type.toList with
      | nothing => exact ⟨k, .passed hstep hk⟩
      | name => exact ⟨k, by rw [String.ofList_toList]; exact .named hstep hk⟩
      | compound =>
        have hc := isCompound_of_stepOf hstep
        have hbefore := Job.parse_before_record hmem hc
        obtain ⟨n, hn⟩ := exists_parses type.toList
        cases hparse : Shape.parse type.toList with
        | error e =>
          rw [hparse] at hn
          exact ⟨n, .refused hstep hbefore hn⟩
        | ok shape =>
          rw [hparse] at hn
          -- the parts are lighter than the type, so recording them ends
          have hlt := Shape.heaviest_parts_lt hmem hc hparse
          have hparts : Before (.record shape.parts) (.record all) := .left _ _ hlt
          obtain ⟨m, hm⟩ := ih _ (hw ▸ hlt) shape.parts rfl shape.parts (List.Subset.refl _)
          dsimp only
          rw [← Shape.mentionsAll_parts ignored hparse]
          cases houtcome : (mentionsAll ignored shape.parts).outcome with
          | error e =>
            have hstopped : (mentionsAll ignored shape.parts).andThen
                (fun _ => mentionsAll ignored types) = mentionsAll ignored shape.parts := by
              rw [Trail.andThen, houtcome]
              simp only [← houtcome]
            have hrecords : Records ignored (n + m + 1) all (type :: types) _ :=
              .stopped hstep hbefore hn hparts hm houtcome
            rw [← hstopped] at hrecords
            exact ⟨n + m + 1, hrecords⟩
          | ok u =>
            exact ⟨n + m + 1 + k, .taken hstep hbefore hn hparts hm houtcome hk⟩

theorem exists_records (ignored types : List String) :
    ∃ n, Records ignored n types types (mentionsAll ignored types) :=
  exists_records_of_subset ignored types types (List.Subset.refl _)

/-- Every text is parsed, and the names of any types are recorded on any ledger, in finitely many
calls and rounds, each of which comes before the one that it is entered from. -/
theorem reading_ends : WellFounded Before ∧
    (∀ text : String, ∃ n r, Parses n text.toList r ∧
      ∀ name, Shape.parseNamed name text.toList = r.map (Shape.named name)) ∧
    ∀ (types : List (Option String)) (l : Ledger), ∃ n t,
      Records l.ignored n (types.filterMap id) (types.filterMap id) t ∧
      (Call.record types).outcome l = t.outcome.map (fun _ => none) ∧
      l.after (.record types) = l.recordAll t.names := by
  refine ⟨Job.wellFounded_before, ?_, ?_⟩
  · intro text
    obtain ⟨n, hn⟩ := exists_parses text.toList
    exact ⟨n, Shape.parse text.toList, hn, fun name => rfl⟩
  · intro types l
    obtain ⟨n, hn⟩ := exists_records l.ignored (types.filterMap id)
    have hon := (Call.record types).follows_recording l.ignored l fun _ => Iff.rfl
    refine ⟨n, mentionsAll l.ignored (types.filterMap id), hn, ?_, ?_⟩
    · rw [Call.outcome, hon, Call.trail, Trail.andThen]
      cases (mentionsAll l.ignored (types.filterMap id)).outcome with
      | error e => rfl
      | ok u => rfl
    · rw [Ledger.after, hon, Call.trail, Trail.names_bind]
      cases (mentionsAll l.ignored (types.filterMap id)).outcome with
      | error e => rfl
      | ok u => exact congrArg _ (List.append_nil _)

end ChainTypings
