import ChainTypings.Shape.Parse

/-!
# The types beneath a shape are lighter

`weight_type_lt`: the type of every shape directly beneath the shape of a text weighs less than
the text. For the operands of a construct this is `weight_lt_of_mem_operands`; the members that an
inline enumeration or set makes of its own are bounded by the value that they come from.
-/

namespace ChainTypings

open Text Json Construct

/-! ## Flags -/

namespace Construct

theorem weigh_putFlag {n : Nat} {flag bit : Json} {fs : List (Json × Json)}
    (hfs : ∀ f ∈ fs, weigh f.2 ≤ n) (hb : weigh bit ≤ n) :
    ∀ f ∈ putFlag flag bit fs, weigh f.2 ≤ n := by
  induction fs with
  | nil =>
    intro f hf
    obtain rfl := List.mem_singleton.1 hf
    exact hb
  | cons g rest ih =>
    obtain ⟨g, b⟩ := g
    have hrest := ih fun f hf => hfs f (by simp [hf])
    have hgb := hfs (g, b) (by simp)
    intro f hf
    unfold putFlag at hf
    split at hf
    · split at hf
      · rcases List.mem_cons.1 hf with rfl | hf
        · exact hb
        · exact hfs f (by simp [hf])
      · rcases List.mem_cons.1 hf with rfl | hf
        · exact hgb
        · exact hrest f hf
    · rcases List.mem_cons.1 hf with rfl | hf
      · exact hgb
      · exact hrest f hf

theorem weigh_le_of_mem_items {v : Json} {items : List Json} (h : v ∈ items) :
    weigh v ≤ weighItems items := by
  induction items with
  | nil => simp at h
  | cons w rest ih =>
    rcases List.mem_cons.1 h with rfl | h
    · simp only [weighItems]
      omega
    · have := ih h
      simp only [weighItems]
      omega

theorem weight_singleton_le {c : Char} {cs : List Char} (h : c ∈ cs) :
    weight (String.singleton c).toList ≤ weight cs := by
  have h1 : (String.singleton c).toList = [c] := by simp
  rw [h1]
  exact weight_le_of_sublist (List.singleton_sublist.2 h)

theorem weight_key_le {k : String} {v : Json} {fields : List (String × Json)}
    (h : (k, v) ∈ fields) : weight k.toList + weigh v ≤ weighFields fields := by
  induction fields with
  | nil => simp at h
  | cons f rest ih =>
    obtain ⟨k', v'⟩ := f
    rcases List.mem_cons.1 h with he | h
    · obtain ⟨rfl, rfl⟩ := Prod.mk.inj he
      simp only [weighFields]
      omega
    · have := ih h
      simp only [weighFields]
      omega

theorem weigh_of_pairItems? {v w : Json} {items : List Json} (h : pairItems? v = some items)
    (hw : w ∈ items) : weigh w ≤ weigh v := by
  unfold pairItems? at h
  split at h
  · obtain rfl := Option.some.inj h
    have := weigh_le_of_mem_items hw
    simp only [weigh]
    omega
  · obtain rfl := Option.some.inj h
    obtain ⟨c, hc, rfl⟩ := List.mem_map.1 hw
    exact weight_singleton_le hc
  · obtain rfl := Option.some.inj h
    obtain ⟨⟨k, u⟩, hk, rfl⟩ := List.mem_map.1 hw
    have := weight_key_le hk
    simp only [weigh]
    omega
  · simp at h

theorem weigh_of_flagPairs {n index : Nat} {acc fs : List (Json × Json)} {vs : List Json}
    (hacc : ∀ f ∈ acc, weigh f.2 ≤ n) (hvs : ∀ v ∈ vs, weigh v ≤ n)
    (h : flagPairs index acc vs = .ok fs) : ∀ f ∈ fs, weigh f.2 ≤ n := by
  induction vs generalizing index acc with
  | nil =>
    obtain rfl := Except.ok.inj h
    exact hacc
  | cons v rest ih =>
    unfold flagPairs at h
    split at h
    · simp at h
    · next flag bit hp =>
      split at h
      · simp at h
      · refine ih (weigh_putFlag hacc ?_) (fun w hw => hvs w (by simp [hw])) h
        exact Nat.le_trans (weigh_of_pairItems? hp (by simp)) (hvs v (by simp))
    · simp at h

theorem weigh_of_readFlags {v : Json} {fs : List (Json × Json)} (h : readFlags v = .ok fs) :
    ∀ f ∈ fs, weigh f.2 ≤ weigh v := by
  unfold readFlags at h
  split at h
  · obtain rfl := Except.ok.inj h
    intro f hf
    obtain ⟨⟨k, u⟩, hk, rfl⟩ := List.mem_map.1 hf
    have := weight_key_le hk
    simp only [weigh]
    omega
  · refine weigh_of_flagPairs (by simp) (fun w hw => ?_) h
    have := weigh_le_of_mem_items hw
    simp only [weigh]
    omega
  · refine weigh_of_flagPairs (by simp) (fun w hw => ?_) h
    obtain ⟨c, hc, rfl⟩ := List.mem_map.1 hw
    exact weight_singleton_le hc
  · simp at h

/-! ## Members of inline definitions -/

/-- What the members that a construct makes of its own may weigh. -/
def OwnMembersLighter (n : Nat) : Construct → Prop
  | variants _ => 1 < n
  | flags fs _ => ∀ f ∈ fs, weigh f.2 < n
  | _ => True

theorem ownMembersLighter_ofFields {value : String} {fields : List (String × Json)}
    {c : Construct} (h : ofFields value fields = .ok c) :
    OwnMembersLighter (1 + weighFields fields) c := by
  unfold ofFields at h
  split at h
  · next names hl =>
    obtain rfl := Except.ok.inj h
    have h1 := weight_key_le (mem_of_lookup hl)
    have h2 : weight "_enum".toList = 1 := by decide
    simp only [weigh] at h1
    simp only [OwnMembersLighter]
    omega
  · obtain rfl := Except.ok.inj h
    trivial
  · simp at h
  · split at h
    · next v hl =>
      split at h
      · next fs hf =>
        obtain rfl := Except.ok.inj h
        intro f hf'
        have h1 := weigh_of_readFlags hf f (List.mem_filter.1 hf').1
        have h2 := weight_key_le (mem_of_lookup hl)
        omega
      · simp at h
    · obtain rfl := Except.ok.inj h
      trivial

theorem ownMembersLighter_mono {n m : Nat} (h : n ≤ m) {c : Construct}
    (hc : OwnMembersLighter n c) : OwnMembersLighter m c := by
  cases c with
  | variants _ => exact Nat.lt_of_lt_of_le hc h
  | flags fs _ => exact fun f hf => Nat.lt_of_lt_of_le (hc f hf) h
  | _ => trivial

theorem ownMembersLighter_ofInline {cs : List Char} {c : Construct} (h : ofInline cs = .ok c) :
    OwnMembersLighter (weight cs) c := by
  unfold ofInline at h
  dsimp only at h
  split at h
  · simp at h
  · next fields hr =>
    have h1 := weigh_of_readChars hr
    simp only [weigh] at h1
    exact ownMembersLighter_mono h1 (ownMembersLighter_ofFields h)
  · simp at h

theorem ownMembersLighter_ofSquare {value inside : List Char} {n : Nat} {c : Construct}
    (h : ofSquare value inside = .ok c) : OwnMembersLighter n c := by
  unfold ofSquare at h
  split at h
  · split at h
    · obtain rfl := Except.ok.inj h
      trivial
    · simp at h
  · obtain rfl := Except.ok.inj h
    trivial

theorem ownMembersLighter_ofArguments {value : List Char} {tag : Tag}
    {arguments : List (List Char)} {n : Nat} {c : Construct}
    (h : ofArguments value tag arguments = .ok c) : OwnMembersLighter n c := by
  unfold ofArguments at h
  dsimp only at h
  split at h
  · split at h
    · split at h
      · obtain rfl := Except.ok.inj h
        trivial
      · simp at h
    · simp at h
  · split at h
    · split at h
      · obtain rfl := Except.ok.inj h
        trivial
      · simp at h
    · simp at h
  · obtain rfl := Except.ok.inj h
    trivial
  · split at h
    · obtain rfl := Except.ok.inj h
      trivial
    · obtain rfl := Except.ok.inj h
      trivial
    · simp at h

theorem ownMembersLighter_ofName {value : List Char} {n : Nat} {c : Construct}
    (h : ofName value = .ok c) : OwnMembersLighter n c := by
  unfold ofName at h
  split at h
  · dsimp only at h
    split at h
    · exact ownMembersLighter_ofArguments h
    · obtain rfl := Except.ok.inj h
      trivial
  · obtain rfl := Except.ok.inj h
    trivial

theorem ownMembersLighter_read {value : List Char} {c : Construct} (h : read value = .ok c) :
    OwnMembersLighter (weight value) c := by
  unfold read at h
  split at h
  · simp at h
  · split at h
    · obtain rfl := Except.ok.inj h
      trivial
    · split at h
      · exact ownMembersLighter_ofInline h
      · split at h
        · obtain rfl := Except.ok.inj h
          trivial
        · split at h
          · exact ownMembersLighter_ofSquare h
          · split at h
            · obtain rfl := Except.ok.inj h
              trivial
            · exact ownMembersLighter_ofName h

/-! ## The type of a shape -/

theorem head_around (h : Head) (ss : List Shape) : (around h ss).head = h := by
  unfold around
  split <;> rfl

theorem children_around (h : Head) (ss : List Shape) : (around h ss).children = ss := by
  unfold around
  split <;> rfl

/-- The type of a shape is the text of its construct, unless that is the empty tuple. -/
theorem type_assemble_or_unit {type : String} {shapes : List Shape} {c : Construct} {s : Shape}
    (h : c.assemble type shapes = .ok s) :
    s.head.type = type ∨ (c = .unit ∧ s.head.type = "Null") := by
  cases c with
  | number tag bits label =>
    simp only [assemble] at h
    cases hc : count bits with
    | error e => rw [hc] at h; simp [bind, Except.bind] at h
    | ok n =>
      rw [hc] at h
      obtain rfl := Except.ok.inj h
      exact .inl rfl
  | vecFixed element digits =>
    simp only [assemble] at h
    cases hc : count digits with
    | error e => rw [hc] at h; simp [bind, Except.bind] at h
    | ok n =>
      rw [hc] at h
      obtain rfl := Except.ok.inj h
      rw [head_around]
      exact .inl rfl
  | vec element =>
    obtain rfl := Except.ok.inj h
    rw [head_around]
    exact .inl rfl
  | wrapper tag argument =>
    obtain rfl := Except.ok.inj h
    rw [head_around]
    exact .inl rfl
  | unit =>
    obtain rfl := Except.ok.inj h
    exact .inr ⟨rfl, rfl⟩
  | _ =>
    obtain rfl := Except.ok.inj h
    exact .inl rfl

theorem type_assemble {type : String} {shapes : List Shape} {c : Construct} {s : Shape}
    (h : c.assemble type shapes = .ok s) : s.head.type = type ∨ s.head.type = "Null" :=
  (type_assemble_or_unit h).imp_right And.right

/-- Only one text is read as the empty tuple. -/
theorem eq_of_read_unit {value : List Char} (h : read value = .ok .unit) : value = ['(', ')'] := by
  unfold read at h
  split at h
  · cases h
  split at h
  · assumption
  exfalso
  split at h
  · unfold ofInline ofFields at h
    dsimp only at h
    repeat' split at h
    all_goals simp at h
  split at h
  · cases h
  split at h
  · unfold ofSquare at h
    repeat' split at h
    all_goals simp at h
  split at h
  · cases h
  · unfold ofName ofArguments at h
    dsimp only at h
    repeat' split at h
    all_goals simp at h

end Construct

namespace Shape

/-- What a successful parse went through. -/
theorem parse_eq_ok {text : List Char} {s : Shape} (h : parse text = .ok s) :
    ∃ value c shapes, Construct.ofText text = .ok (value, c) ∧
      parseEach parse c.operands = .ok shapes ∧
      c.assemble (String.ofList value) shapes = .ok s := by
  rw [parse_eq] at h
  split at h
  · simp at h
  · next value c hc =>
    split at h
    · simp at h
    · next shapes hs => exact ⟨value, c, shapes, hc, hs, h⟩

/-- The type of a shape is the normal spelling of the text that was parsed, unless that is the
empty tuple. -/
theorem type_parse {text : List Char} {s : Shape} (h : parse text = .ok s) :
    s.head.type = String.ofList (Spelling.normalize text) ∨
      (Spelling.normalize text = ['(', ')'] ∧ s.head.type = "Null") := by
  obtain ⟨value, c, shapes, hc, -, ha⟩ := parse_eq_ok h
  obtain ⟨rfl, hr⟩ := ofText_eq_ok hc
  refine (type_assemble_or_unit ha).imp_right ?_
  rintro ⟨rfl, htype⟩
  exact ⟨eq_of_read_unit hr, htype⟩

/-- The type of a shape is no heavier than the text that was parsed. -/
theorem weight_type_le {text : List Char} {s : Shape} (h : parse text = .ok s) :
    weight s.head.type.toList ≤ weight text := by
  refine Nat.le_trans ?_ (Spelling.weight_normalize text)
  rcases type_parse h with htype | ⟨hunit, htype⟩
  · exact Nat.le_of_eq (by rw [htype, String.toList_ofList])
  · rw [htype, hunit]
    decide

theorem parseEach_mem {parse : List Char → Except ParseError Shape} {ts : List (List Char)}
    {ss : List Shape} (h : parseEach parse ts = .ok ss) {s : Shape} (hs : s ∈ ss) :
    ∃ t ∈ ts, parse t = .ok s := by
  induction ts generalizing ss with
  | nil =>
    obtain rfl := Except.ok.inj h
    simp at hs
  | cons t ts ih =>
    unfold parseEach at h
    split at h
    · simp at h
    · next s' hs' =>
      split at h
      · simp at h
      · next ss' hss' =>
        obtain rfl := Except.ok.inj h
        rcases List.mem_cons.1 hs with rfl | hs
        · exact ⟨t, by simp, hs'⟩
        · obtain ⟨u, hu, he⟩ := ih hss' hs
          exact ⟨u, by simp [hu], he⟩

theorem mem_zipWith_named {ms : List (Json × List Char)} {shapes : List Shape} {s : Shape}
    (h : s ∈ List.zipWith (fun (m : Json × List Char) s => s.named m.1) ms shapes) :
    ∃ s' ∈ shapes, s.head.type = s'.head.type := by
  induction ms generalizing shapes with
  | nil => simp at h
  | cons m ms ih =>
    cases shapes with
    | nil => simp at h
    | cons s' shapes =>
      rw [List.zipWith_cons_cons] at h
      rcases List.mem_cons.1 h with rfl | h
      · exact ⟨s', by simp, by simp [named]⟩
      · obtain ⟨u, hu, he⟩ := ih h
        exact ⟨u, by simp [hu], he⟩

/-- A shape beneath an assembled one is an operand's, but for its name, or one that an inline
definition makes of its own. -/
theorem weight_type_of_assemble {type : String} {n : Nat} {shapes : List Shape} {c : Construct}
    {s child : Shape} (hshapes : ∀ s ∈ shapes, weight s.head.type.toList < n)
    (hown : OwnMembersLighter n c) (h : c.assemble type shapes = .ok s)
    (hchild : child ∈ s.children) : weight child.head.type.toList < n := by
  cases c with
  | number tag bits label =>
    simp only [assemble] at h
    cases hc : count bits with
    | error e => rw [hc] at h; simp [bind, Except.bind] at h
    | ok k =>
      rw [hc] at h
      obtain rfl := Except.ok.inj h
      simp [children] at hchild
  | vecFixed element digits =>
    simp only [assemble] at h
    cases hc : count digits with
    | error e => rw [hc] at h; simp [bind, Except.bind] at h
    | ok k =>
      rw [hc] at h
      obtain rfl := Except.ok.inj h
      rw [children_around] at hchild
      exact hshapes _ hchild
  | vec element =>
    obtain rfl := Except.ok.inj h
    rw [children_around] at hchild
    exact hshapes _ hchild
  | wrapper tag argument =>
    obtain rfl := Except.ok.inj h
    rw [children_around] at hchild
    exact hshapes _ hchild
  | tuple elements =>
    obtain rfl := Except.ok.inj h
    exact hshapes _ hchild
  | pair tag first second =>
    obtain rfl := Except.ok.inj h
    exact hshapes _ hchild
  | members tag ms =>
    obtain rfl := Except.ok.inj h
    obtain ⟨s', hs', he⟩ := mem_zipWith_named hchild
    rw [he]
    exact hshapes _ hs'
  | variants names =>
    obtain rfl := Except.ok.inj h
    obtain ⟨name, -, rfl⟩ := List.mem_map.1 hchild
    have h2 : weight "Null".toList = 1 := by decide
    simp only [emptyVariant, head, h2]
    exact hown
  | flags fs length =>
    obtain rfl := Except.ok.inj h
    obtain ⟨f, hf, rfl⟩ := List.mem_map.1 hchild
    simp only [flagShape, head, Json.bare, String.toList_ofList]
    exact Nat.lt_of_le_of_lt (weight_bareChars _) (hown f hf)
  | _ =>
    obtain rfl := Except.ok.inj h
    simp [children] at hchild

/-- The type of a shape directly beneath is lighter than the text that was parsed. -/
theorem weight_type_lt {text : List Char} {s child : Shape} (h : parse text = .ok s)
    (hchild : child ∈ s.children) : weight child.head.type.toList < weight text := by
  obtain ⟨value, c, shapes, hc, hs, ha⟩ := parse_eq_ok h
  obtain ⟨rfl, hr⟩ := ofText_eq_ok hc
  refine weight_type_of_assemble (fun s hs' => ?_)
    (ownMembersLighter_mono (Spelling.weight_normalize text) (ownMembersLighter_read hr)) ha hchild
  obtain ⟨t, ht, he⟩ := parseEach_mem hs hs'
  exact Nat.lt_of_le_of_lt (weight_type_le he) (weight_lt_of_ofText hc ht)

end Shape

end ChainTypings
