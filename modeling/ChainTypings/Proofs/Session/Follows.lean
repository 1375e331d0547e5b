import ChainTypings.Proofs.Import.Recording
import ChainTypings.Session.Recording

/-!
# Recordings follow trails

A recording reads the ledger that it changes, so on the face of it what it gives may depend on
what is recorded already. It does not: every recording `Follows` a trail, which knows no ledger but
the ignored names. On any ledger it ends as the trail ends, and leaves the ledger with the names of
the trail recorded, also if it fails. The relation is closed under sequences and lists, and it holds
of the one place where the ledger is read, where a type text is taken apart (`follows_recordBy`).
-/

namespace ChainTypings

open Text Import

namespace Recording

variable {α β : Type} {ignored : List String}

/-- On every ledger with the ignored names the recording ends as the trail does, and leaves the
names of the trail recorded. -/
def Follows (ignored : List String) (c : Recording α) (t : Trail α) : Prop :=
  ∀ l : Ledger, (∀ n, n ∈ l.ignored ↔ n ∈ ignored) → c.on l = (t.outcome, l.recordAll t.names)

theorem on_bind (c : Recording α) (f : α → Recording β) (l : Ledger) :
    (c >>= f).on l =
      match c.on l with
      | (.ok a, l') => (f a).on l'
      | (.error e, l') => (.error e, l') := by
  show (ExceptT.bindCont f (c.on l).1).run (c.on l).2 = _
  rcases c.on l with ⟨_ | a, l'⟩ <;> rfl

namespace Follows

theorem done (a : α) : Follows ignored (pure a) (.done a) := fun _ _ => rfl

theorem fail (e : RenderError) : Follows ignored (throw e : Recording α) (.fail e) :=
  fun _ _ => rfl

theorem andThen {c : Recording α} {t : Trail α} {f : α → Recording β} {g : α → Trail β}
    (h : Follows ignored c t) (h' : ∀ a, Follows ignored (f a) (g a)) :
    Follows ignored (c >>= f) (t.andThen g) := by
  intro l hl
  rw [on_bind, h l hl]
  obtain ⟨names, outcome⟩ := t
  cases outcome with
  | error e => rfl
  | ok a =>
    have hl' : ∀ n, n ∈ (l.recordAll names).ignored ↔ n ∈ ignored := by
      rwa [Ledger.ignored_recordAll]
    show (f a).on (l.recordAll names) = _
    rw [h' a _ hl', ← Ledger.recordAll_append]
    rfl

theorem map {c : Recording α} {t : Trail α} (h : Follows ignored c t) (g : α → β) :
    Follows ignored (c >>= fun a => pure (g a)) (t.andThen fun a => .done (g a)) :=
  h.andThen fun _ => .done _

end Follows

/-! ## Type texts -/

theorem follows_mention (name : String) :
    Follows ignored (modify (·.record name)) (.mention name) := fun _ _ => rfl

/-- What is looked up on the ledger is only which names it ignores. -/
theorem follows_get {f : Ledger → Recording α} {t : Trail α}
    (h : ∀ l : Ledger, (∀ n, n ∈ l.ignored ↔ n ∈ ignored) → Follows ignored (f l) t) :
    Follows ignored (get >>= f) t := fun l hl => h l hl l hl

theorem contains_eq {l : Ledger} (hl : ∀ n, n ∈ l.ignored ↔ n ∈ ignored) (name : String) :
    l.ignored.contains name = ignored.contains name := by
  rw [Bool.eq_iff_iff, List.contains_iff_mem, List.contains_iff_mem, hl]

theorem stepOf_eq {l : Ledger} (hl : ∀ n, n ∈ l.ignored ↔ n ∈ ignored) (cs : List Char) :
    stepOf l.ignored cs = stepOf ignored cs := by
  unfold stepOf
  dsimp only
  rw [contains_eq hl]

theorem follows_note (name : String) :
    Follows ignored (note name) (Import.note ignored name) := by
  refine follows_get fun l hl => ?_
  unfold Import.note
  rw [contains_eq hl]
  split
  · exact .done ()
  · exact follows_mention name

theorem recordBy_eq (p : Import.Parser) (cs : List Char) :
    recordBy p cs = (do
      match stepOf (← get).ignored cs with
      | .nothing => return ()
      | .name => modify (·.record (String.ofList cs))
      | .compound =>
        match p.parse cs with
        | .error e => throw (.parse e)
        | .ok s =>
          note s.head.tag.name
          forM s.children fun child => recordBy p child.head.type.toList) := by
  have beneath : ∀ s : Shape,
      (s.children.attach.forM fun c => recordBy p c.1.head.type.toList) =
        forM s.children fun child => recordBy p child.head.type.toList := by
    intro s
    have h := List.forM_map (l := s.children.attach) (g := Subtype.val)
      (f := fun child => recordBy p child.head.type.toList)
    rw [List.attach_map_subtype_val] at h
    exact h.symm
  rw [recordBy]
  congr
  funext l
  cases stepOf l.ignored cs with
  | nothing => rfl
  | name => rfl
  | compound =>
    dsimp only
    split
    · next h => rw [h]
    · next h =>
      rw [h]
      dsimp only
      rw [beneath]

theorem follows_forM {f : α → Recording Unit} {g : α → Trail Unit} {as : List α}
    (h : ∀ a ∈ as, Follows ignored (f a) (g a)) :
    Follows ignored (forM as f) (.forEach g as) := by
  induction as with
  | nil => exact .done ()
  | cons a as ih =>
    rw [List.forM_cons]
    exact (h a (by simp)).andThen fun _ => ih fun b hb => h b (List.mem_cons_of_mem _ hb)

/-- A type text is taken apart on the ledger as it is in a trail. -/
theorem follows_recordBy (p : Import.Parser) (cs : List Char) :
    Follows ignored (recordBy p cs) (mentionsBy p ignored cs) := by
  induction hw : weight cs using Nat.strongRecOn generalizing cs with
  | ind w ih =>
    rw [recordBy_eq, mentionsBy_eq]
    refine follows_get fun l hl => ?_
    rw [stepOf_eq hl]
    cases stepOf ignored cs with
    | nothing => exact .done ()
    | name => exact follows_mention _
    | compound =>
      cases hparse : p.parse cs with
      | error e => exact .fail _
      | ok s =>
        refine (follows_note _).andThen fun _ => follows_forM ?_
        intro child hchild
        exact ih _ (hw ▸ p.lighter hparse hchild) _ rfl

theorem follows_record (type : String) :
    Follows ignored (record type) (mentionsOf ignored type) := follows_recordBy _ _

theorem follows_recordEach (types : List (Option String)) :
    Follows ignored (recordEach types) (mentionsAll ignored (types.filterMap id)) := by
  induction types with
  | nil => exact .done ()
  | cons type types ih =>
    cases type with
    | none => exact ih
    | some type => exact (follows_record type).andThen fun _ => ih

end Recording

end ChainTypings
