import ChainTypings.Render.Trail

/-!
# How trails end

`noting` is the trail of a computation that only mentions names and gives a value. A computation of
which some steps may fail `Ends` in the first of its faults, or else notes its names and gives its
value; one step after the other, the faults, the names and the values are those of the steps in
turn (`Ends.andThen`, `Ends.mapEach`).

Three invariants go through any computation step by step: `AllNames`, that every mentioned name
has a property, `AllErrors`, that the error has one if it ends in an error, and `Gives`, that a
value stands in a relation to the names known by then, which are those known before and those
mentioned on the way.
-/

namespace ChainTypings

/-- What leaves a value has succeeded. -/
theorem exists_ok_of_isSome {ε α : Type} {x : Except ε α} (h : x.toOption.isSome = true) :
    ∃ a, x = .ok a := by
  cases x with
  | error e => cases h
  | ok a => exact ⟨a, rfl⟩

theorem eq_ok_of_toOption {ε α : Type} {x : Except ε α} {a : α} (h : x.toOption = some a) :
    x = .ok a := by
  cases x with
  | error e => cases h
  | ok b => rw [Option.some.inj h]

namespace Trail

variable {α β : Type} (ignored : List String)

/-- Mentions those of the names that are not ignored, and gives a value. -/
def noting (names : List String) (a : α) : Trail α :=
  ⟨names.filter (· ∉ ignored), .ok a⟩

variable {ignored}

theorem mem_noting {names : List String} {a : α} {n : String} :
    n ∈ (noting ignored names a).names ↔ n ∈ names ∧ n ∉ ignored := by
  simp [noting]

theorem noting_andThen {ns ms : List String} {a : α} {b : β} {f : α → Trail β}
    (h : f a = noting ignored ms b) :
    (noting ignored ns a).andThen f = noting ignored (ns ++ ms) b := by
  simp [andThen, noting, h]

theorem forEach_map {γ : Type} (g : γ → α) (f : α → Trail Unit) (cs : List γ) :
    forEach f (cs.map g) = forEach (f ∘ g) cs := by
  induction cs with
  | nil => rfl
  | cons c cs ih => rw [List.map_cons, forEach, forEach, ih, Function.comp]

theorem mapEach_map {γ : Type} (g : γ → α) (f : α → Trail β) (cs : List γ) :
    mapEach f (cs.map g) = mapEach (f ∘ g) cs := by
  induction cs with
  | nil => rfl
  | cons c cs ih => rw [List.map_cons, mapEach, mapEach, ih, Function.comp]

theorem forEach_noting {f : α → Trail Unit} {names : α → List String} {as : List α}
    (h : ∀ a ∈ as, f a = noting ignored (names a) ()) :
    forEach f as = noting ignored (as.flatMap names) () := by
  induction as with
  | nil => rfl
  | cons a as ih =>
    have ha := h a (by simp)
    have has := ih fun b hb => h b (List.mem_cons_of_mem _ hb)
    rw [forEach, ha, List.flatMap_cons]
    exact noting_andThen has

/-! ## Faults -/

/-- The computation ends in the first fault, or without one notes the names and gives the value. -/
def Ends (ignored : List String) (t : Trail α) (faults : List RenderError) (names : List String)
    (a : α) : Prop :=
  match faults with
  | [] => t = noting ignored names a
  | e :: _ => t.outcome = .error e

namespace Ends

theorem noting (names : List String) (a : α) :
    Ends ignored (Trail.noting ignored names a) [] names a := rfl

theorem fail {names : List String} {a : α} (e : RenderError) :
    Ends ignored (Trail.fail e) [e] names a := rfl

theorem andThen {t : Trail α} {f : α → Trail β} {es es' : List RenderError} {ns ms : List String}
    {a : α} {b : β} (h : Ends ignored t es ns a) (h' : Ends ignored (f a) es' ms b) :
    Ends ignored (t.andThen f) (es ++ es') (ns ++ ms) b := by
  cases es with
  | cons e es =>
    have he : t.outcome = .error e := h
    show (t.andThen f).outcome = .error e
    simp [Trail.andThen, he]
  | nil =>
    have ht : t = Trail.noting ignored ns a := h
    subst ht
    cases es' with
    | nil =>
      have hf : f a = Trail.noting ignored ms b := h'
      exact noting_andThen hf
    | cons e es' =>
      have hf : (f a).outcome = .error e := h'
      show ((Trail.noting ignored ns a).andThen f).outcome = .error e
      simp [Trail.andThen, Trail.noting, hf]

theorem map {t : Trail α} {es : List RenderError} {ns : List String} {a : α} (g : α → β)
    (h : Ends ignored t es ns a) : Ends ignored (t.andThen fun x => done (g x)) es ns (g a) := by
  have := h.andThen (f := fun x => done (g x)) (noting [] (g a))
  rwa [List.append_nil, List.append_nil] at this

theorem mapEach {f : α → Trail β} {faults : α → List RenderError} {names : α → List String}
    {value : α → β} {as : List α}
    (h : ∀ a ∈ as, Ends ignored (f a) (faults a) (names a) (value a)) :
    Ends ignored (Trail.mapEach f as) (as.flatMap faults) (as.flatMap names) (as.map value) := by
  induction as with
  | nil => rfl
  | cons a as ih =>
    have ha := h a (by simp)
    have has := ih fun b hb => h b (List.mem_cons_of_mem _ hb)
    exact ha.andThen (has.map (value a :: ·))

end Ends

/-! ## What the names have in common -/

/-- Every mentioned name has the property. -/
def AllNames (p : String → Prop) (t : Trail α) : Prop := ∀ n ∈ t.names, p n

namespace AllNames

variable {p : String → Prop}

theorem done (a : α) : AllNames p (Trail.done a) := by
  intro n hn
  exact absurd hn List.not_mem_nil

theorem fail (e : RenderError) : AllNames p (Trail.fail e : Trail α) := by
  intro n hn
  exact absurd hn List.not_mem_nil

theorem mention {name : String} (h : p name) : AllNames p (Trail.mention name) := by
  intro n hn
  obtain rfl := List.mem_singleton.1 hn
  exact h

theorem andThen {t : Trail α} {f : α → Trail β} (h : AllNames p t) (h' : ∀ a, AllNames p (f a)) :
    AllNames p (t.andThen f) := by
  intro n hn
  rw [names_bind] at hn
  split at hn
  · next a _ =>
    rcases List.mem_append.1 hn with hn | hn
    · exact h n hn
    · exact h' a n hn
  · exact h n hn

theorem forEach {f : α → Trail Unit} {as : List α} (h : ∀ a ∈ as, AllNames p (f a)) :
    AllNames p (Trail.forEach f as) := by
  induction as with
  | nil => exact done ()
  | cons a as ih =>
    exact (h a (by simp)).andThen fun _ => ih fun b hb => h b (List.mem_cons_of_mem _ hb)

theorem mapEach {f : α → Trail β} {as : List α} (h : ∀ a ∈ as, AllNames p (f a)) :
    AllNames p (Trail.mapEach f as) := by
  induction as with
  | nil => exact done []
  | cons a as ih =>
    have has := ih fun b hb => h b (List.mem_cons_of_mem _ hb)
    exact (h a (by simp)).andThen fun b => has.andThen fun bs => done (b :: bs)

end AllNames

/-! ## What the errors have in common -/

/-- An error that the computation ends in has the property. -/
def AllErrors (p : RenderError → Prop) (t : Trail α) : Prop := ∀ e, t.outcome = .error e → p e

namespace AllErrors

variable {p : RenderError → Prop}

theorem done (a : α) : AllErrors p (Trail.done a) := by
  intro e he
  exact absurd he (by simp [Trail.done])

theorem fail {e : RenderError} (h : p e) : AllErrors p (Trail.fail e : Trail α) := by
  intro e' he
  obtain rfl := Except.error.inj he
  exact h

theorem mention (name : String) : AllErrors p (Trail.mention name) := by
  intro e he
  exact absurd he (by simp [Trail.mention])

theorem andThen {t : Trail α} {f : α → Trail β} (h : AllErrors p t) (h' : ∀ a, AllErrors p (f a)) :
    AllErrors p (t.andThen f) := by
  intro e he
  unfold Trail.andThen at he
  split at he
  · next a _ => exact h' a e he
  · next hfirst =>
    obtain rfl := Except.error.inj he
    exact h _ hfirst

theorem map {t : Trail α} (h : AllErrors p t) (g : α → β) :
    AllErrors p (t.andThen fun a => Trail.done (g a)) :=
  h.andThen fun a => done (g a)

theorem forEach {f : α → Trail Unit} {as : List α} (h : ∀ a ∈ as, AllErrors p (f a)) :
    AllErrors p (Trail.forEach f as) := by
  induction as with
  | nil => exact done ()
  | cons a as ih =>
    exact (h a (by simp)).andThen fun _ => ih fun b hb => h b (List.mem_cons_of_mem _ hb)

theorem mapEach {f : α → Trail β} {as : List α} (h : ∀ a ∈ as, AllErrors p (f a)) :
    AllErrors p (Trail.mapEach f as) := by
  induction as with
  | nil => exact done []
  | cons a as ih =>
    have has := ih fun b hb => h b (List.mem_cons_of_mem _ hb)
    exact (h a (by simp)).andThen fun b => has.map (b :: ·)

end AllErrors

/-! ## What is known when a value is given -/

/-- A value that is given stands in the relation to the names known by then. -/
def Gives (known : String → Prop) (t : Trail α) (post : α → (String → Prop) → Prop) : Prop :=
  ∀ a, t.outcome = .ok a → post a fun n => known n ∨ n ∈ t.names

namespace Gives

variable {known : String → Prop} {post : α → (String → Prop) → Prop}
  {post' : β → (String → Prop) → Prop}

theorem fail (e : RenderError) : Gives known (Trail.fail e) post := by
  intro a ha
  exact absurd ha (by simp [Trail.fail])

theorem done {a : α} (h : post a known) : Gives known (Trail.done a) post := by
  intro b hb
  obtain rfl := Except.ok.inj hb
  have hknown : (fun n => known n ∨ n ∈ (Trail.done a).names) = known := by
    funext n
    exact propext ⟨fun h => h.resolve_right List.not_mem_nil, .inl⟩
  rwa [hknown]

theorem trivial (known : String → Prop) (t : Trail α) : Gives known t fun _ _ => True := by
  intro a _
  exact True.intro

/-- The second step starts with what is known after the first. -/
theorem andThen {t : Trail α} {f : α → Trail β} (h : Gives known t post)
    (h' : ∀ a (known' : String → Prop), (∀ n, known n → known' n) → post a known' →
      Gives known' (f a) post') : Gives known (t.andThen f) post' := by
  intro b hb
  cases ha : t.outcome with
  | error e => exact absurd hb (by simp [Trail.andThen, ha])
  | ok a =>
    have hb' : (f a).outcome = .ok b := by simpa [Trail.andThen, ha] using hb
    have hpost := h' a _ (fun n hn => .inl hn) (h a ha) b hb'
    -- what is known at the end is what was known, and the names of both steps
    have hknown : (fun n => known n ∨ n ∈ (t.andThen f).names) =
        fun n => (known n ∨ n ∈ t.names) ∨ n ∈ (f a).names := by
      funext n
      rw [names_bind, ha, List.mem_append, or_assoc]
    rwa [hknown]

theorem map {t : Trail α} {g : α → β} (h : Gives known t post)
    (h' : ∀ a (known' : String → Prop), (∀ n, known n → known' n) → post a known' →
      post' (g a) known') : Gives known (t.andThen fun a => Trail.done (g a)) post' := by
  refine h.andThen ?_
  intro a known' hmono ha
  exact done (h' a known' hmono ha)

/-- Each value in turn stands in a relation that learning more does not undo. -/
theorem mapEach {f : α → Trail β} {as : List α}
    (hmono : ∀ b (k k' : String → Prop), (∀ n, k n → k' n) → post' b k → post' b k')
    (h : ∀ a ∈ as, ∀ k : String → Prop, (∀ n, known n → k n) → Gives k (f a) post') :
    Gives known (Trail.mapEach f as) fun bs k => ∀ b ∈ bs, post' b k := by
  induction as generalizing known with
  | nil => exact done (by simp)
  | cons a as ih =>
    refine (h a (by simp) known fun _ hn => hn).andThen ?_
    intro b k hk hb
    have has : Gives k (Trail.mapEach f as) fun bs k' => ∀ b ∈ bs, post' b k' := by
      refine ih ?_
      intro c hc k' hk'
      exact h c (List.mem_cons_of_mem _ hc) k' fun n hn => hk' n (hk n hn)
    refine has.map ?_
    intro bs k' hk' hbs
    simp only [List.mem_cons, forall_eq_or_imp]
    exact ⟨hmono b k k' hk' hb, hbs⟩

/-- What each value has of its step, the values have of the steps in order. -/
theorem mapEach_map {γ : Type} {f : α → Trail β} {g : β → γ} {h : α → γ} {as : List α}
    (hf : ∀ a ∈ as, ∀ k, Gives k (f a) fun b _ => g b = h a) :
    Gives known (Trail.mapEach f as) fun bs _ => bs.map g = as.map h := by
  induction as generalizing known with
  | nil => exact done rfl
  | cons a as ih =>
    refine (hf a (by simp) known).andThen ?_
    intro b k _ hb
    have has : Gives k (Trail.mapEach f as) fun bs _ => bs.map g = as.map h :=
      ih fun c hc => hf c (List.mem_cons_of_mem _ hc)
    exact has.map fun bs _ _ hbs => by rw [List.map_cons, List.map_cons, hb, hbs]

end Gives

end Trail

end ChainTypings
