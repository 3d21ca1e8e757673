import TabularQuery.Text.Case

/-!
The LIKE operator: `%` matches any run of characters, `_` exactly one, any other character itself.
Text and pattern are compared in lower case. The scan goes from left to right and never looks back
beyond the last `%`: after a mismatch that `%` swallows one character more.
-/

namespace TabularQuery.Text

/-- Where to go on after a mismatch: the pattern after the last `%`, and the text that this `%` has
not swallowed yet. -/
abbrev Retry := Option (List Char × List Char)

/-- How much text the last `%` can still swallow. -/
def Retry.budget (text : List Char) : Retry → Nat
  | some (_, start) => start.length
  | none => text.length + 1

/-- What the head of a pattern does with a character. -/
inductive PatternHead where
  /-- A `%`, with the pattern after it. -/
  | anyRun (after : List Char)
  /-- A match of this character, with the pattern after it. -/
  | one (after : List Char)
  | mismatch

def patternHead (c : Char) : List Char → PatternHead
  | [] => .mismatch
  | p :: after => if p = '%' then .anyRun after else if p = '_' || p = c then .one after else .mismatch

theorem patternHead_anyRun_length {c : Char} {pattern after : List Char}
    (h : patternHead c pattern = .anyRun after) : after.length < pattern.length := by
  cases pattern with
  | nil => simp [patternHead] at h
  | cons p rest =>
    simp only [patternHead] at h
    split at h
    · cases h; simp
    · split at h <;> cases h

/-- Does the text from here on match the pattern from here on, or a later choice of the last `%`? -/
def scanLike (text pattern : List Char) (retry : Retry)
    (fits : ∀ r ∈ retry, text.length ≤ r.2.length) : Bool :=
  match text with
  | [] => pattern.all (· = '%')
  | c :: rest =>
    match h : patternHead c pattern with
    | .anyRun after => scanLike (c :: rest) after (some (after, c :: rest)) (by simp)
    | .one after => scanLike rest after retry (fun r hr => Nat.le_of_succ_le (fits r hr))
    | .mismatch =>
      match retry with
      | some (after, _ :: start) => scanLike start after (some (after, start)) (by simp)
      | _ => false
termination_by (retry.budget text, text.length + pattern.length)
decreasing_by
  · have shorter := patternHead_anyRun_length h
    cases retry with
    | none => exact Prod.Lex.left _ _ (by simp [Retry.budget])
    | some r =>
      have bound := fits r rfl
      rcases Nat.lt_or_eq_of_le bound with hlt | heq
      · exact Prod.Lex.left _ _ hlt
      · rw [show Retry.budget (c :: rest) (some r) = Retry.budget (c :: rest) (some (after, c :: rest))
          from heq.symm]
        exact Prod.Lex.right _ (by omega)
  · cases retry with
    | none => exact Prod.Lex.left _ _ (by simp [Retry.budget])
    | some r =>
      refine Prod.Lex.right _ ?_
      cases pattern with
      | nil => simp [patternHead] at h
      | cons p tail =>
        simp only [patternHead] at h
        split at h
        · cases h
        · split at h
          · cases h; simp; omega
          · cases h
  · exact Prod.Lex.left _ _ (by simp [Retry.budget])

/-- Case-insensitive LIKE. -/
def like (text pattern : String) : Bool :=
  scanLike (lower text).toList (lower pattern).toList none (by simp)

end TabularQuery.Text
