import ChainTypings.Text.Utf8

/-!
# Line breaks

The text of a file: its bytes as UTF-8, in which a line feed, a carriage return and the two
together all count as one line break. `unifyBreaks_eq_self` says that text without carriage returns is
kept as it is.
-/

namespace ChainTypings.Text

/-- What a character becomes after the one before it: a line feed that only completes a line break
goes, a carriage return becomes a line feed. -/
def unifiedChar (before c : Char) : Option Char :=
  if c = '\n' ∧ before = '\r' then none else some (if c = '\r' then '\n' else c)

/-- The text with every line break written as a line feed. -/
def unifyBreaks (cs : List Char) : List Char :=
  ((' ' :: cs).zip cs).filterMap fun (before, c) => unifiedChar before c

/-- The text that the bytes of a file hold. -/
def ofFileBytes (bytes : List UInt8) : Except Utf8.Fault String :=
  (Utf8.decode bytes).map fun cs => String.ofList (unifyBreaks cs)

theorem filterMap_unifiedChar {before : Char} {cs : List Char} (hb : before ≠ '\r')
    (h : '\r' ∉ cs) :
    ((before :: cs).zip cs).filterMap (fun (b, c) => unifiedChar b c) = cs := by
  induction cs generalizing before with
  | nil => rfl
  | cons c cs ih =>
    have hc : c ≠ '\r' := fun e => h (e ▸ List.mem_cons_self)
    have hcs : '\r' ∉ cs := fun m => h (List.mem_cons_of_mem _ m)
    rw [List.zip_cons_cons, List.filterMap_cons, ih hc hcs]
    simp [unifiedChar, hb, hc]

theorem unifyBreaks_eq_self {cs : List Char} (h : '\r' ∉ cs) : unifyBreaks cs = cs :=
  filterMap_unifiedChar (by decide) h

end ChainTypings.Text
