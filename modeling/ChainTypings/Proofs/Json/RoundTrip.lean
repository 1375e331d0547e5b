import ChainTypings.Proofs.Json.Strings

/-!
# Reading undoes writing

A value is written with some gap after each comma and colon; the usual text of a value has one
blank there (`written_blank`). Whatever the gap, a value without floating-point numbers and without
repeated keys is read back from its text (`readChars_written`).

The reader is followed in front of what comes behind a value in its list or object: one statement
for values, one for the items of a list and one for the fields of an object, in one induction on
the value. The length of the text bounds the nesting of the calls.
-/

namespace ChainTypings.Json

open Text

/-! ## Texts with gaps -/

mutual

/-- The text of a value with a gap after each comma and colon. -/
def written (gap : List Char) : Json → List Char
  | .null => "null".toList
  | .bool b => if b then "true".toList else "false".toList
  | .int n => intChars n
  | .float x => dumpFloat x
  | .str s => dumpString s
  | .arr items => '[' :: (writtenItems gap items ++ [']'])
  | .obj fields => '{' :: (writtenFields gap fields ++ ['}'])

/-- The items of a list, with commas and gaps between. -/
def writtenItems (gap : List Char) : List Json → List Char
  | [] => []
  | [v] => written gap v
  | v :: w :: rest => written gap v ++ ',' :: (gap ++ writtenItems gap (w :: rest))

/-- The fields of an object, with commas and gaps between. -/
def writtenFields (gap : List Char) : List (String × Json) → List Char
  | [] => []
  | [(k, v)] => dumpString k ++ ':' :: (gap ++ written gap v)
  | (k, v) :: f :: rest =>
    dumpString k ++ ':' :: (gap ++ written gap v) ++ ',' :: (gap ++ writtenFields gap (f :: rest))

end

mutual

/-- The usual text of a value has a blank after each comma and colon. -/
theorem written_blank : (v : Json) → written [' '] v = dumpChars v
  | .null => rfl
  | .bool _ => rfl
  | .int _ => rfl
  | .float _ => rfl
  | .str _ => rfl
  | .arr items => by rw [written, dumpChars, writtenItems_blank items]; rfl
  | .obj fields => by rw [written, dumpChars, writtenFields_blank fields]; rfl

theorem writtenItems_blank : (vs : List Json) → writtenItems [' '] vs = dumpItems vs
  | [] => rfl
  | [v] => written_blank v
  | v :: w :: rest => by
    rw [writtenItems, dumpItems, written_blank v, writtenItems_blank (w :: rest)]
    · rfl
    · simp

theorem writtenFields_blank : (fs : List (String × Json)) →
    writtenFields [' '] fs = dumpFields fs
  | [] => rfl
  | [(k, v)] => by rw [writtenFields, dumpFields, written_blank v]; rfl
  | (k, v) :: f :: rest => by
    rw [writtenFields, dumpFields, written_blank v, writtenFields_blank (f :: rest)]
    · simp
    · simp

end

/-! ## Values that are read back -/

/-- A value without floating-point numbers in which no object repeats a key. -/
inductive Plain : Json → Prop
  | null : Plain .null
  | bool (b) : Plain (.bool b)
  | int (n) : Plain (.int n)
  | str (s) : Plain (.str s)
  | arr {items} : (∀ v ∈ items, Plain v) → Plain (.arr items)
  | obj {fields} : (fields.map (·.1)).Nodup → (∀ f ∈ fields, Plain f.2) → Plain (.obj fields)

theorem put_of_not_mem {key : String} {fields : List (String × Json)}
    (h : key ∉ fields.map (·.1)) (v : Json) : put key v fields = fields ++ [(key, v)] := by
  induction fields with
  | nil => rfl
  | cons f rest ih =>
    obtain ⟨k, w⟩ := f
    simp only [List.map_cons, List.mem_cons, not_or] at h
    rw [put, if_neg (Ne.symm h.1), ih h.2, List.cons_append]

/-- An object keeps its fields if none repeats a key. -/
theorem ofFields_of_nodup {fields : List (String × Json)} (h : (fields.map (·.1)).Nodup) :
    ofFields fields = .obj fields := by
  -- the fields that were put and those that are still to come repeat no key together
  have hfold : ∀ (rest acc : List (String × Json)), ((acc ++ rest).map (·.1)).Nodup →
      rest.foldl (fun acc f => put f.1 f.2 acc) acc = acc ++ rest := by
    intro rest
    induction rest with
    | nil => intro acc _; simp
    | cons f rest ih =>
      intro acc hacc
      have hnot : f.1 ∉ acc.map (·.1) := by
        intro hm
        rw [List.map_append, List.map_cons, List.nodup_append] at hacc
        exact hacc.2.2 _ hm _ List.mem_cons_self rfl
      have hnext : acc ++ f :: rest = acc ++ [(f.1, f.2)] ++ rest := by simp
      rw [hnext] at hacc
      rw [List.foldl_cons, put_of_not_mem hnot, ih _ hacc, hnext]
  rw [ofFields, hfold fields [] (by simpa using h), List.nil_append]

/-! ## The start of a value -/

theorem isGap_eq_false_of_isDigit {c : Char} (h : c.isDigit = true) : isGap c = false := by
  cases hg : isGap c with
  | false => rfl
  | true =>
    simp only [isGap, Bool.or_eq_true, decide_eq_true_eq] at hg
    rcases hg with ((rfl | rfl) | rfl) | rfl <;> exact absurd h (by decide)

theorem ne_of_isDigit {c d : Char} (hc : c.isDigit = true) (hd : d.isDigit = false) : c ≠ d := by
  rintro rfl
  rw [hc] at hd
  exact Bool.noConfusion hd

/-- An integer starts with a digit, or with a minus and a digit behind. -/
theorem exists_cons_intChars (n : Int) : ∃ d ds, d.isDigit = true ∧
    (intChars n = d :: ds ∨ intChars n = '-' :: d :: ds) := by
  obtain ⟨d, ds, hd⟩ := List.exists_cons_of_ne_nil (l := Nat.toDigits 10 n.natAbs)
    Nat.toDigits_ne_nil
  refine ⟨d, ds, isDigit_of_mem_decimal d (by rw [hd]; exact List.mem_cons_self), ?_⟩
  unfold intChars
  rw [hd]
  by_cases hn : n < 0
  · exact .inr (if_pos hn)
  · exact .inl (if_neg hn)

/-- No value starts with a gap or with the end of a list or an object. -/
theorem exists_cons_written {v : Json} (h : v.Plain) (gap : List Char) :
    ∃ c cs, written gap v = c :: cs ∧ isGap c = false ∧ c ≠ ']' ∧ c ≠ '}' ∧ c ≠ '\ufeff' := by
  cases h with
  | null => exact ⟨_, _, rfl, by decide⟩
  | bool b => cases b <;> exact ⟨_, _, rfl, by decide⟩
  | int n =>
    obtain ⟨d, ds, hd, he | he⟩ := exists_cons_intChars n
    · exact ⟨d, ds, he, isGap_eq_false_of_isDigit hd, ne_of_isDigit hd rfl, ne_of_isDigit hd rfl,
        ne_of_isDigit hd rfl⟩
    · exact ⟨_, _, he, by decide⟩
  | str s => exact ⟨_, _, rfl, by decide⟩
  | arr _ => exact ⟨_, _, rfl, by decide⟩
  | obj _ _ => exact ⟨_, _, rfl, by decide⟩

theorem skip_cons {c : Char} (h : isGap c = false) (cs : List Char) : skip (c :: cs) = c :: cs :=
  List.dropWhile_cons_of_neg (by rw [h]; decide)

theorem skip_append {gap : List Char} (hg : ∀ c ∈ gap, isGap c = true) (cs : List Char) :
    skip (gap ++ cs) = skip cs :=
  List.dropWhile_append_of_pos hg

theorem skip_written {v : Json} (h : v.Plain) (gap rest : List Char) :
    skip (written gap v ++ rest) = written gap v ++ rest := by
  obtain ⟨c, cs, hc, hgap, -⟩ := exists_cons_written h gap
  rw [hc, List.cons_append, skip_cons hgap]

/-! ## Reading -/

/-- A number is read from a text that starts like no text, list or object and with no word. -/
theorem value_of_number {c : Char} (hq : c ≠ '"') (hb : c ≠ '{') (hs : c ≠ '[') {cs : List Char}
    (hword : word? (c :: cs) = none) {found : Json × List Char}
    (hnumber : number? (c :: cs) = some found) (fuel : Nat) :
    value (fuel + 1) (c :: cs) = .ok found := by
  rw [value]
  · simp only [hword, hnumber]
  · intro rest h
    exact hq (List.cons.inj h).1
  · intro rest h
    exact hb (List.cons.inj h).1
  · intro rest h
    exact hs (List.cons.inj h).1

theorem word?_intChars (n : Int) (rest : List Char) : word? (intChars n ++ rest) = none := by
  obtain ⟨d, ds, hd, he⟩ := exists_cons_intChars n
  have hne : ∀ c, c.isDigit = false → ¬c = d := fun c hc => (ne_of_isDigit hd hc).symm
  rcases he with he | he
  · simp [he, word?, words, after?, hne]
  · simp [he, word?, words, after?, hne]

theorem value_intChars (n : Int) (fuel : Nat) {rest : List Char} (h : EndsNumber rest) :
    value (fuel + 1) (intChars n ++ rest) = .ok (.int n, rest) := by
  have hword := word?_intChars n rest
  have hnumber := number?_intChars n h
  obtain ⟨d, ds, hd, he⟩ := exists_cons_intChars n
  rcases he with he | he
  · rw [he, List.cons_append] at hword hnumber ⊢
    exact value_of_number (ne_of_isDigit hd rfl) (ne_of_isDigit hd rfl) (ne_of_isDigit hd rfl)
      hword hnumber fuel
  · rw [he, List.cons_append] at hword hnumber ⊢
    exact value_of_number (by decide) (by decide) (by decide) hword hnumber fuel

theorem value_dumpString (s : String) (fuel : Nat) (rest : List Char) :
    value (fuel + 1) (dumpString s ++ rest) = .ok (.str s, rest) := by
  have hchars : dumpString s ++ rest = '"' :: (s.toList.flatMap dumpChar ++ '"' :: rest) := by
    simp [dumpString]
  rw [hchars, value, string_dump]

/-- What stands behind a value in a list or an object ends every number. -/
theorem endsNumber_cons {c : Char} (h : c = ',' ∨ c = ']' ∨ c = '}') (rest : List Char) :
    EndsNumber (c :: rest) := by
  intro d hd
  obtain rfl : c = d := Option.some.inj hd
  rcases h with rfl | rfl | rfl <;> decide

/-- The value is read from its text, in front of anything that no number goes on with. -/
def ReadsBack (gap : List Char) (v : Json) : Prop :=
  ∀ fuel rest, EndsNumber rest → (written gap v).length ≤ fuel →
    value fuel (written gap v ++ rest) = .ok (v, rest)

section

variable {gap : List Char} (hg : ∀ c ∈ gap, isGap c = true)

include hg

/-- The items of a list are read up to its closing bracket. -/
theorem items_written {vs : List Json} (hne : vs ≠ [])
    (h : ∀ v ∈ vs, v.Plain ∧ ReadsBack gap v) (fuel : Nat) (rest : List Char)
    (hf : (writtenItems gap vs).length < fuel) :
    items fuel (writtenItems gap vs ++ ']' :: rest) = .ok (vs, rest) := by
  -- one call for each item: the comma and the item that was read pay for the call on the rest
  induction vs generalizing fuel with
  | nil => exact absurd rfl hne
  | cons v vs ih =>
    obtain ⟨fuel, rfl⟩ : ∃ k, fuel = k + 1 := ⟨fuel - 1, by omega⟩
    obtain ⟨hv, hread⟩ := h v List.mem_cons_self
    cases vs with
    | nil =>
      have hlen : (written gap v).length ≤ fuel := by
        simp only [writtenItems] at hf
        omega
      rw [writtenItems, items, hread fuel _ (endsNumber_cons (.inr (.inl rfl)) rest) hlen]
      rfl
    | cons w ws =>
      have hlens : (written gap v).length ≤ fuel ∧
          (writtenItems gap (w :: ws)).length < fuel := by
        simp only [writtenItems, List.length_append, List.length_cons] at hf
        omega
      have hrest := ih (by simp) (fun u hu => h u (List.mem_cons_of_mem _ hu)) fuel hlens.2
      have hskip : skip (writtenItems gap (w :: ws) ++ ']' :: rest) =
          writtenItems gap (w :: ws) ++ ']' :: rest := by
        have hw := (h w (by simp)).1
        cases ws with
        | nil => exact skip_written hw gap _
        | cons u us =>
          rw [writtenItems, List.append_assoc]
          exact skip_written hw gap _
      rw [writtenItems, List.append_assoc, List.cons_append, List.append_assoc, items,
        hread fuel _ (endsNumber_cons (.inl rfl) _) hlens.1]
      simp only [skip_cons (c := ',') rfl, skip_append hg, hskip, hrest]

section

variable (k : String) {v : Json} (hv : v.Plain) (hread : ReadsBack gap v) {fuel : Nat}
  (hf : (written gap v).length ≤ fuel)

include hv hread hf

theorem members_last (rest : List Char) :
    members (fuel + 1) (dumpString k ++ ':' :: (gap ++ written gap v) ++ '}' :: rest) =
      .ok ([(k, v)], rest) := by
  have hchars : dumpString k ++ ':' :: (gap ++ written gap v) ++ '}' :: rest =
      '"' :: (k.toList.flatMap dumpChar ++
        '"' :: ':' :: (gap ++ (written gap v ++ '}' :: rest))) := by
    simp [dumpString]
  have hvalue := hread fuel _ (endsNumber_cons (.inr (.inr rfl)) rest) hf
  rw [hchars, members, string_dump]
  simp only [skip_cons (c := ':') rfl, skip_append hg, skip_written hv, hvalue,
    skip_cons (c := '}') rfl]

theorem members_more {more rest : List Char} {fs : List (String × Json)}
    (h : members fuel (skip more) = .ok (fs, rest)) :
    members (fuel + 1) (dumpString k ++ ':' :: (gap ++ written gap v) ++ ',' :: more) =
      .ok ((k, v) :: fs, rest) := by
  have hchars : dumpString k ++ ':' :: (gap ++ written gap v) ++ ',' :: more =
      '"' :: (k.toList.flatMap dumpChar ++
        '"' :: ':' :: (gap ++ (written gap v ++ ',' :: more))) := by
    simp [dumpString]
  have hvalue := hread fuel _ (endsNumber_cons (.inl rfl) more) hf
  rw [hchars, members, string_dump]
  simp only [skip_cons (c := ':') rfl, skip_append hg, skip_written hv, hvalue,
    skip_cons (c := ',') rfl, h]

end

/-- The fields of an object are read up to its closing brace. -/
theorem members_written {fs : List (String × Json)} (hne : fs ≠ [])
    (h : ∀ f ∈ fs, f.2.Plain ∧ ReadsBack gap f.2) (fuel : Nat) (rest : List Char)
    (hf : (writtenFields gap fs).length ≤ fuel) :
    members fuel (writtenFields gap fs ++ '}' :: rest) = .ok (fs, rest) := by
  induction fs generalizing fuel with
  | nil => exact absurd rfl hne
  | cons f fs ih =>
    obtain ⟨k, v⟩ := f
    obtain ⟨hv, hread⟩ : v.Plain ∧ ReadsBack gap v := h (k, v) List.mem_cons_self
    cases fs with
    | nil =>
      simp only [writtenFields, List.length_append, List.length_cons] at hf
      obtain ⟨fuel, rfl⟩ : ∃ k, fuel = k + 1 := ⟨fuel - 1, by omega⟩
      exact members_last hg k hv hread (by omega) rest
    | cons f fs =>
      simp only [writtenFields, List.length_append, List.length_cons] at hf
      obtain ⟨fuel, rfl⟩ : ∃ k, fuel = k + 1 := ⟨fuel - 1, by omega⟩
      have hrest := ih (by simp) (fun e he => h e (List.mem_cons_of_mem _ he)) fuel (by omega)
      have hskip : skip (writtenFields gap (f :: fs) ++ '}' :: rest) =
          writtenFields gap (f :: fs) ++ '}' :: rest := by
        obtain ⟨l, w⟩ := f
        cases fs <;> exact skip_cons rfl _
      rw [writtenFields, List.append_assoc, List.cons_append, List.append_assoc gap]
      refine members_more hg k hv hread (by omega) ?_
      rw [skip_append hg, hskip, hrest]

/-- A list that is not empty is read by its items. -/
theorem value_list {vs : List Json} (hne : vs ≠ []) (h : ∀ v ∈ vs, v.Plain ∧ ReadsBack gap v)
    {fuel : Nat} (rest : List Char) (hf : (writtenItems gap vs).length < fuel) :
    value (fuel + 1) ('[' :: (writtenItems gap vs ++ ']' :: rest)) = .ok (.arr vs, rest) := by
  have hread := items_written hg hne h fuel rest hf
  obtain ⟨c, cs, hc, hgap, hend⟩ : ∃ c cs, writtenItems gap vs = c :: cs ∧
      isGap c = false ∧ c ≠ ']' := by
    obtain ⟨v, ws, rfl⟩ := List.exists_cons_of_ne_nil hne
    obtain ⟨c, cs, hc, hgap, hend, -⟩ := exists_cons_written (h v List.mem_cons_self).1 gap
    cases ws with
    | nil => exact ⟨c, cs, hc, hgap, hend⟩
    | cons w ws => exact ⟨c, _, by rw [writtenItems, hc, List.cons_append], hgap, hend⟩
  rw [hc, List.cons_append] at hread ⊢
  simp only [value, skip_cons hgap]
  -- the first item does not start like the end of the list, so the list is not taken for empty
  split
  · next heq => exact absurd (List.cons.inj heq).1 hend
  · rw [hread]

/-- An object that is not empty is read by its fields. -/
theorem value_object {fs : List (String × Json)} (hne : fs ≠ [])
    (hk : (fs.map (·.1)).Nodup) (h : ∀ f ∈ fs, f.2.Plain ∧ ReadsBack gap f.2) {fuel : Nat}
    (rest : List Char) (hf : (writtenFields gap fs).length ≤ fuel) :
    value (fuel + 1) ('{' :: (writtenFields gap fs ++ '}' :: rest)) = .ok (.obj fs, rest) := by
  have hread := members_written hg hne h fuel rest hf
  obtain ⟨cs, hc⟩ : ∃ cs, writtenFields gap fs = '"' :: cs := by
    obtain ⟨⟨k, v⟩, gs, rfl⟩ := List.exists_cons_of_ne_nil hne
    cases gs <;> exact ⟨_, rfl⟩
  rw [hc, List.cons_append] at hread ⊢
  simp only [value, skip_cons (c := '"') rfl]
  split
  · next heq => exact absurd (List.cons.inj heq).1 (by decide)
  · rw [hread]
    simp only [ofFields_of_nodup hk]

/-- A value without floating-point numbers and repeated keys is read from its text. -/
theorem Plain.readsBack {v : Json} (h : v.Plain) : ReadsBack gap v := by
  -- the text has at least one character, so one call at least is allowed
  have hsucc : ∀ {w : Json} {fuel}, w.Plain → (written gap w).length ≤ fuel →
      ∃ k, fuel = k + 1 := by
    intro w fuel hw hf
    obtain ⟨c, cs, hc, -⟩ := exists_cons_written hw gap
    rw [hc, List.length_cons] at hf
    exact ⟨fuel - 1, by omega⟩
  induction h with
  | null =>
    intro fuel rest _ hf
    obtain ⟨fuel, rfl⟩ := hsucc .null hf
    rfl
  | bool b =>
    intro fuel rest _ hf
    obtain ⟨fuel, rfl⟩ := hsucc (.bool b) hf
    cases b <;> rfl
  | int n =>
    intro fuel rest hr hf
    obtain ⟨fuel, rfl⟩ := hsucc (.int n) hf
    exact value_intChars n fuel hr
  | str s =>
    intro fuel rest _ hf
    obtain ⟨fuel, rfl⟩ := hsucc (.str s) hf
    exact value_dumpString s fuel rest
  | @arr vs h ih =>
    intro fuel rest _ hf
    obtain ⟨fuel, rfl⟩ := hsucc (.arr h) hf
    simp only [written, List.length_append, List.length_cons, List.length_nil] at hf
    rw [written, List.cons_append, List.append_assoc, List.singleton_append]
    cases vs with
    | nil => rfl
    | cons v vs => exact value_list hg (by simp) (fun w hw => ⟨h w hw, ih w hw⟩) rest (by omega)
  | @obj fs hk h ih =>
    intro fuel rest _ hf
    obtain ⟨fuel, rfl⟩ := hsucc (.obj hk h) hf
    simp only [written, List.length_append, List.length_cons, List.length_nil] at hf
    rw [written, List.cons_append, List.append_assoc, List.singleton_append]
    cases fs with
    | nil => rfl
    | cons f fs =>
      exact value_object hg (by simp) hk (fun e he => ⟨h e he, ih e he⟩) rest (by omega)

/-- A value without floating-point numbers and repeated keys is read back from its text, whatever
gaps stand in it. -/
theorem readChars_written {v : Json} (h : v.Plain) : readChars (written gap v) = .ok v := by
  obtain ⟨c, cs, hc, hgap, -, -, hmark⟩ := exists_cons_written h gap
  have hread := h.readsBack hg (2 * (written gap v).length + 2) []
    (fun c hc => absurd hc (by simp)) (by omega)
  rw [List.append_nil] at hread
  unfold readChars
  dsimp only
  split
  · next heq =>
    rw [hc] at heq
    exact absurd (List.cons.inj heq).1 hmark
  · have hskip : skip (written gap v) = written gap v := by rw [hc, skip_cons hgap]
    rw [hskip, hread]
    rfl

end

end ChainTypings.Json
