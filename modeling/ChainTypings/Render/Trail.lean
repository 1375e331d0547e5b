import ChainTypings.Render.Error

/-!
# Trails

A computation that mentions names as it goes and ends in a value or an error. What it mentioned
before an error stays mentioned: `names_bind` says that a second part adds its names to those of
the first, and only if the first did not fail.
-/

namespace ChainTypings

/-- The names that a computation has mentioned, in order, and how it ended. -/
structure Trail (α : Type) where
  names : List String
  outcome : Except RenderError α

namespace Trail

/-- Ends in a value without mentioning anything. -/
def done {α : Type} (a : α) : Trail α := ⟨[], .ok a⟩

/-- Ends in an error without mentioning anything. -/
def fail {α : Type} (e : RenderError) : Trail α := ⟨[], .error e⟩

/-- Mentions one name. -/
def mention (name : String) : Trail Unit := ⟨[name], .ok ()⟩

/-- Goes on with a second part if the first did not fail. -/
def andThen {α β : Type} (t : Trail α) (f : α → Trail β) : Trail β :=
  match t.outcome with
  | .ok a => ⟨t.names ++ (f a).names, (f a).outcome⟩
  | .error e => ⟨t.names, .error e⟩

instance : Monad Trail where
  pure := done
  bind := andThen

/-- A step that mentions nothing. -/
def ofExcept {α : Type} (r : Except RenderError α) : Trail α := ⟨[], r⟩

/-- Goes through a list, in order, up to the first failure. -/
def forEach {α : Type} (f : α → Trail Unit) : List α → Trail Unit
  | [] => done ()
  | a :: as => f a >>= fun _ => forEach f as

/-- The results of going through a list, in order, up to the first failure. -/
def mapEach {α β : Type} (f : α → Trail β) : List α → Trail (List β)
  | [] => done []
  | a :: as => do
    let b ← f a
    let bs ← mapEach f as
    return b :: bs

variable {α β : Type}

@[simp] theorem pure_eq (a : α) : (pure a : Trail α) = done a := rfl

@[simp] theorem bind_eq (t : Trail α) (f : α → Trail β) : t >>= f = t.andThen f := rfl

theorem names_bind (t : Trail α) (f : α → Trail β) :
    (t.andThen f).names =
      match t.outcome with
      | .ok a => t.names ++ (f a).names
      | .error _ => t.names := by
  unfold andThen
  split <;> simp_all

@[simp] theorem done_andThen (a : α) (f : α → Trail β) : (done a).andThen f = f a := by
  simp [andThen, done]

theorem andThen_assoc {γ : Type} (t : Trail α) (f : α → Trail β) (g : β → Trail γ) :
    (t.andThen f).andThen g = t.andThen fun a => (f a).andThen g := by
  obtain ⟨names, outcome⟩ := t
  cases outcome with
  | error e => rfl
  | ok a =>
    simp only [andThen]
    cases h : (f a).outcome <;> simp

end Trail

end ChainTypings
