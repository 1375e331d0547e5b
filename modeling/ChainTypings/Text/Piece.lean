/-!
# Pieces at the start of a text

Readers go through a text from piece to piece; each reader gives what is left. `after?_eq` and
`afterSome?_eq` say that a piece and what is left are the text.
-/

namespace ChainTypings.Text

/-- What follows a given text. -/
def after? : List Char → List Char → Option (List Char)
  | [], cs => some cs
  | _ :: _, [] => none
  | p :: piece, c :: cs => if p = c then after? piece cs else none

/-- What follows the longest run of characters of a class; there must be one at least. -/
def afterSome? (p : Char → Bool) : List Char → Option (List Char)
  | [] => none
  | c :: cs => if p c then some (cs.dropWhile p) else none

/-- The stretches of a text between characters of a class; empty ones are left out. -/
def stretches (isGap : Char → Bool) : List Char → List (List Char)
  | [] => []
  | c :: cs =>
    if isGap c then stretches isGap cs
    else
      match cs, stretches isGap cs with
      | d :: _, s :: rest => if isGap d then [c] :: s :: rest else (c :: s) :: rest
      | _, rest => [c] :: rest

theorem after?_eq {piece cs rest : List Char} (h : after? piece cs = some rest) :
    cs = piece ++ rest := by
  induction piece generalizing cs with
  | nil => simpa [after?] using h
  | cons p piece ih =>
    cases cs with
    | nil => simp [after?] at h
    | cons c cs =>
      by_cases hp : p = c
      · simp only [after?, hp, if_true] at h
        rw [ih h, hp, List.cons_append]
      · simp [after?, hp] at h

theorem afterSome?_eq {p : Char → Bool} {cs rest : List Char} (h : afterSome? p cs = some rest) :
    ∃ c run, cs = c :: run ++ rest ∧ ∀ x ∈ c :: run, p x = true := by
  cases cs with
  | nil => simp [afterSome?] at h
  | cons c cs =>
    by_cases hc : p c = true
    · simp only [afterSome?, hc, if_true, Option.some.injEq] at h
      subst h
      refine ⟨c, cs.takeWhile p, by simp, ?_⟩
      intro x hx
      rcases List.mem_cons.1 hx with rfl | hx
      · exact hc
      · exact List.all_eq_true.1 (List.all_takeWhile (l := cs)) x hx
    · simp [afterSome?, hc] at h

theorem after?_sublist {piece cs rest : List Char} (h : after? piece cs = some rest) :
    rest.Sublist cs := by
  rw [after?_eq h]
  exact List.sublist_append_right _ _

theorem afterSome?_sublist {p : Char → Bool} {cs rest : List Char}
    (h : afterSome? p cs = some rest) : rest.Sublist cs := by
  obtain ⟨c, run, rfl, -⟩ := afterSome?_eq h
  exact List.sublist_append_right _ _

end ChainTypings.Text
