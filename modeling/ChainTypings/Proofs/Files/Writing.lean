import ChainTypings.Files.Write

/-!
# What writing leaves as it is

Making directories changes no file (`file?_makeDirectories`), whether it succeeds or not. A text
that is written to a file is what is read there afterwards, and no other file has changed
(`writes_writeText`).
-/

namespace ChainTypings

namespace Tree

/-- The bytes of the file at a place, if there is a file. -/
def file? (t : Tree) (q : Place) : Option (List UInt8) :=
  match t.node? q with
  | some (.file bytes) => some bytes
  | _ => none

/-- The later tree has the bytes in the file that the path leads to, and is as the earlier one in
all other files. -/
structure Writes (t : Tree) (p : Path) (bytes : List UInt8) (t' : Tree) : Prop where
  read : t'.read p = .ok bytes
  others : ∀ q, t'.locate p ≠ .ok q → t'.file? q = t.file? q

variable {t t' : Tree}

theorem names_ne_nil {place : Place} (h : t.node? place ≠ some .directory) : place.names ≠ [] := by
  intro hnil
  exact h (by simp [node?, hnil])

/-! ## Directories -/

theorem file?_makeDirectory {p : Path} (h : t.makeDirectory p = .ok t') (q : Place) :
    t'.file? q = t.file? q := by
  unfold makeDirectory at h
  split at h
  · cases h
  · next place _ =>
    split at h
    · next hnone =>
      obtain rfl := Except.ok.inj h
      by_cases hq : q = place
      · have hplace : t.node? place ≠ some .directory := by simp [hnone]
        rw [hq, file?, file?, node?_put_self _ _ (names_ne_nil hplace), hnone]
      · rw [file?, file?, node?_put_of_ne _ _ hq]
    · cases h

theorem file?_tolerant (p : Path) (q : Place) :
    (t.tolerant p (t.makeDirectory p)).1.file? q = t.file? q := by
  cases h : t.makeDirectory p with
  | error e => rfl
  | ok t' => exact file?_makeDirectory h q

theorem file?_makeUpwards (slashes : Nat) (parts : List String) (t : Tree) (q : Place) :
    (makeUpwards slashes parts t).1.file? q = t.file? q := by
  induction parts generalizing t with
  | nil => rfl
  | cons part above ih =>
    unfold makeUpwards
    dsimp only
    split
    · have habove := ih t
      split
      · next htop =>
        rw [htop] at habove
        exact (file?_tolerant _ q).trans habove
      · exact habove
    · exact file?_tolerant _ q

theorem file?_makeDirectories (p : Path) (q : Place) :
    (t.makeDirectories p).1.file? q = t.file? q :=
  file?_makeUpwards p.slashes p.parts.reverse t q

/-! ## Files -/

/-- A way that ends is not changed by what is put at a place that is no directory. -/
theorem follow_put {place : Place} (hplace : t.node? place ≠ some .directory) (n : Node)
    {parts : List String} {p q : Place} (h : t.follow p parts = .ok q) :
    (t.put place n).follow p parts = .ok q := by
  induction parts generalizing p with
  | nil => exact h
  | cons part parts ih =>
    unfold follow at h ⊢
    split at h
    · cases h
    · cases h
    · next hdirectory =>
      have hne : p ≠ place := by
        rintro rfl
        exact hplace hdirectory
      rw [node?_put_of_ne _ _ hne, hdirectory]
      split at h
      · cases h
      · next hshort =>
        simp only [hshort, if_false]
        exact ih h

theorem locate_put {place : Place} (hplace : t.node? place ≠ some .directory) (n : Node)
    {p : Path} {q : Place} (h : t.locate p = .ok q) : (t.put place n).locate p = .ok q := by
  unfold locate at h ⊢
  split at h
  · cases h
  · next hnull =>
    split at h
    · cases h
    · next hlong =>
      simp only [hnull, hlong, if_false]
      exact follow_put hplace n h

theorem writes_write {p : Path} {bytes : List UInt8} {place : Place}
    (h : t.write p bytes = .ok (place, t')) : t.Writes p bytes t' := by
  have hnode := node?_of_write h
  unfold write at h
  split at h
  · cases h
  · next found hlocate =>
    split at h
    · cases h
    · next hfree =>
      obtain ⟨rfl, rfl⟩ := Prod.mk.inj (Except.ok.inj h)
      have hplace := locate_put hfree (.file bytes) hlocate
      constructor
      · simp only [read, hplace, hnode]
      · intro q hq
        have hne : q ≠ found := by
          rintro rfl
          exact hq hplace
        rw [file?, file?, node?_put_of_ne _ _ hne]

theorem Writes.of_files {p : Path} {bytes : List UInt8} {before : Tree}
    (hfiles : ∀ q, t.file? q = before.file? q) (h : t.Writes p bytes t') :
    before.Writes p bytes t' :=
  ⟨h.read, fun q hq => (h.others q hq).trans (hfiles q)⟩

/-- A text that is written is read at its place, and no other file changes. -/
theorem writes_writeText {directory : Path} {name content : String} {w : WrittenFile}
    (h : t.writeText directory name content = (t', .ok w)) :
    t.Writes (directory.join (.ofString name)) (Text.Utf8.encode content.toList) t' := by
  have hfiles := file?_makeDirectories (t := t) directory
  unfold writeText at h
  split at h
  · cases h
  · next made hmade =>
    rw [hmade] at hfiles
    dsimp only at h
    split at h
    · cases h
    · next hwrite =>
      obtain ⟨rfl, -⟩ := Prod.mk.inj h
      exact (writes_write hwrite).of_files hfiles

end Tree

end ChainTypings
