import TabularQuery.Text.Like

/-!
What LIKE means. `Matches` says it by recursion on the pattern, where `%` may take any run of the text. The
scan tries one run at a time for the last `%` only and forgets those before it. That loses nothing: between two
`%` the scan goes character by character, so that whatever an earlier `%` could still reach by taking more, the
last one reaches too. The loop comes to an answer after a bounded number of passes.
-/

namespace TabularQuery.Text

/-- The whole text matches the pattern: `%` any run of characters, `_` one, any other character itself. -/
def Matches : (pattern text : List Char) → Prop
  | [], text => text = []
  | p :: pattern, text =>
    if p = '%' then ∃ run rest, text = run ++ rest ∧ Matches pattern rest
    else ∃ c rest, text = c :: rest ∧ (p = '_' ∨ p = c) ∧ Matches pattern rest

/-! ### Passes of the loop -/

/-- Where the scan is: the text and the pattern from here on, and where to go on after a mismatch. -/
structure Scan where
  text : List Char
  pattern : List Char
  retry : Retry

namespace Scan

/-- One pass: the answer, or where the next pass begins. -/
def pass (s : Scan) : Bool ⊕ Scan :=
  match s.text with
  | [] => .inl (s.pattern.all (· = '%'))
  | c :: rest =>
    match patternHead c s.pattern with
    | .anyRun after => .inr ⟨c :: rest, after, some (after, c :: rest)⟩
    | .one after => .inr ⟨rest, after, s.retry⟩
    | .mismatch =>
      match s.retry with
      | some (after, _ :: start) => .inr ⟨start, after, some (after, start)⟩
      | _ => .inl false

/-- The answer of the loop, if it comes within so many passes. -/
def run : Nat → Scan → Option Bool
  | 0, _ => none
  | n + 1, s =>
    match s.pass with
    | .inl answer => some answer
    | .inr s' => s'.run n

/-- What the scan is to find: a match from here on, or one in which the last `%` takes more than it has so far. -/
def Accepts (s : Scan) : Prop :=
  Matches s.pattern s.text ∨
    ∃ after start run rest, s.retry = some (after, start) ∧ start = run ++ rest ∧ run ≠ [] ∧ Matches after rest

/-- The scan has come from its last `%` character by character, through `used` in the pattern and `taken` in the
text; no pattern is longer than `limit`. -/
structure Tracks (limit : Nat) (s : Scan) : Prop where
  pattern : s.pattern.length ≤ limit
  retry : ∀ after start, s.retry = some (after, start) → after.length ≤ limit ∧
    ∃ used taken, after = used ++ s.pattern ∧ start = taken ++ s.text ∧ '%' ∉ used ∧ used.length = taken.length

/-- The number of passes still to come is at most this. -/
def work (limit : Nat) (s : Scan) : Nat := Retry.budget s.text s.retry * (limit + 1) + s.pattern.length

/-- The ways in which the scan goes on, and those in which it ends. -/
inductive Pass : Scan → Bool ⊕ Scan → Prop
  | finish {pattern : List Char} {retry : Retry} : Pass ⟨[], pattern, retry⟩ (.inl (pattern.all (· = '%')))
  | anyRun {c : Char} {rest after : List Char} {retry : Retry} :
      Pass ⟨c :: rest, '%' :: after, retry⟩ (.inr ⟨c :: rest, after, some (after, c :: rest)⟩)
  | one {c p : Char} {rest after : List Char} {retry : Retry} (hp : p ≠ '%') (hc : p = '_' ∨ p = c) :
      Pass ⟨c :: rest, p :: after, retry⟩ (.inr ⟨rest, after, retry⟩)
  | again {c d : Char} {rest pattern after start : List Char} (hno : ¬ Matches pattern (c :: rest)) :
      Pass ⟨c :: rest, pattern, some (after, d :: start)⟩ (.inr ⟨start, after, some (after, start)⟩)
  | fail {c : Char} {rest pattern : List Char} {retry : Retry} (hno : ¬ Matches pattern (c :: rest))
      (hretry : ∀ after start, retry = some (after, start) → start = []) :
      Pass ⟨c :: rest, pattern, retry⟩ (.inl false)

end Scan

/-! ### Patterns -/

variable {pattern after used text start rest : List Char} {p c : Char}

theorem matches_percent : Matches ('%' :: pattern) text ↔ ∃ run rest, text = run ++ rest ∧ Matches pattern rest := by
  rw [Matches, if_pos rfl]

theorem matches_of_ne (h : p ≠ '%') :
    Matches (p :: pattern) text ↔ ∃ c rest, text = c :: rest ∧ (p = '_' ∨ p = c) ∧ Matches pattern rest := by
  rw [Matches, if_neg h]

theorem matches_nil_iff : Matches pattern [] ↔ pattern.all (· = '%') = true := by
  induction pattern with
  | nil => simp [Matches]
  | cons p pattern ih =>
    by_cases hp : p = '%'
    · subst hp
      rw [matches_percent, List.all_cons, decide_eq_true rfl, Bool.true_and, ← ih]
      constructor
      · rintro ⟨run, rest, hsplit, hrest⟩
        rw [(List.append_eq_nil_iff.mp hsplit.symm).2] at hrest
        exact hrest
      · intro h
        exact ⟨[], [], rfl, h⟩
    · rw [matches_of_ne hp]
      simp [hp]

/-- A part of a pattern without `%` takes as many characters as it has itself. -/
theorem Matches.split (hused : '%' ∉ used) (h : Matches (used ++ pattern) text) :
    ∃ taken rest, text = taken ++ rest ∧ taken.length = used.length ∧ Matches pattern rest := by
  induction used generalizing text with
  | nil => exact ⟨[], text, rfl, rfl, h⟩
  | cons p used ih =>
    have hp : p ≠ '%' := by
      intro he
      exact hused (he ▸ List.mem_cons_self)
    rw [List.cons_append, matches_of_ne hp] at h
    obtain ⟨c, rest, rfl, -, hrest⟩ := h
    obtain ⟨taken, rest', rfl, hlength, hmatches⟩ := ih (fun hmem => hused (List.mem_cons_of_mem _ hmem)) hrest
    exact ⟨c :: taken, rest', rfl, congrArg (· + 1) hlength, hmatches⟩

/-! ### What a pass does -/

namespace Scan

variable {s s' : Scan} {limit : Nat} {retry : Retry}

theorem pass_cases (s : Scan) : Pass s s.pass := by
  obtain ⟨text, pattern, retry⟩ := s
  cases text with
  | nil => exact .finish
  | cons c rest =>
    have hmismatch (hno : ¬ Matches pattern (c :: rest)) (hhead : patternHead c pattern = .mismatch) :
        Pass ⟨c :: rest, pattern, retry⟩ (pass ⟨c :: rest, pattern, retry⟩) := by
      simp only [pass, hhead]
      split
      · exact .again hno
      · rename_i hnone
        refine .fail hno fun after start hretry => ?_
        cases start with
        | nil => rfl
        | cons d start => exact absurd hretry (hnone after d start)
    cases pattern with
    | nil => exact hmismatch nofun rfl
    | cons p after =>
      by_cases hp : p = '%'
      · subst hp
        exact .anyRun
      · by_cases hc : p = '_' ∨ p = c
        · have hhead : patternHead c (p :: after) = .one after := by simp [patternHead, hp, hc]
          simp only [pass, hhead]
          exact .one hp hc
        · apply hmismatch
          · rw [matches_of_ne hp]
            rintro ⟨c', rest', hsplit, hc', -⟩
            cases hsplit
            exact hc hc'
          · simp [patternHead, hp, not_or.mp hc]

/-- The text is at its end: the last `%` could only take more if less were left for what follows it. -/
theorem Tracks.accepts_nil (h : Tracks limit ⟨[], pattern, retry⟩) :
    Accepts ⟨[], pattern, retry⟩ ↔ Matches pattern [] := by
  constructor
  · rintro (hmatches | ⟨after, start, run, rest, hretry, hstart, hrun, hmatches⟩)
    · exact hmatches
    · obtain ⟨-, used, taken, rfl, htaken, hused, hlength⟩ := h.retry after start hretry
      obtain ⟨taken', rest', rfl, hlength', -⟩ := hmatches.split hused
      have htotal := congrArg List.length (hstart.symm.trans htaken)
      have hpos := List.length_pos_iff.mpr hrun
      simp only [List.length_append, List.length_nil] at htotal
      omega
  · exact .inl

theorem Tracks.answer_iff {answer : Bool} (h : Tracks limit s) (hpass : s.pass = .inl answer) : answer = true ↔ s.Accepts := by
  have hcases := s.pass_cases
  rw [hpass] at hcases
  cases hcases with
  | finish => rw [h.accepts_nil, matches_nil_iff]
  | fail hno hretry =>
    refine ⟨nofun, ?_⟩
    rintro (hmatches | ⟨after, start, run, rest, hsome, hstart, hrun, -⟩)
    · exact absurd hmatches hno
    · rw [hretry after start hsome] at hstart
      exact absurd (List.append_eq_nil_iff.mp hstart.symm).1 hrun

/-- At a new `%` the one before it can be forgotten: what it could reach, the new one reaches by taking more. -/
theorem Tracks.accepts_percent (h : Tracks limit ⟨text, '%' :: after, retry⟩) :
    Accepts ⟨text, '%' :: after, retry⟩ ↔ Matches ('%' :: after) text := by
  constructor
  · rintro (hmatches | ⟨after', start, run, rest, hretry, hstart, hrun, hmatches⟩)
    · exact hmatches
    · obtain ⟨-, used, taken, rfl, htaken, hused, hlength⟩ := h.retry after' start hretry
      obtain ⟨taken', rest', rfl, hlength', hmatches'⟩ := hmatches.split hused
      -- the text that is left for the new `%` ends with what was left for it in the other match
      have hsuffix : rest' <:+ taken ++ text := by
        rw [← htaken, hstart, ← List.append_assoc]
        exact List.suffix_append _ _
      have htotal := congrArg List.length (hstart.symm.trans htaken)
      simp only [List.length_append] at htotal
      obtain ⟨skipped, rfl⟩ := List.suffix_of_suffix_length_le hsuffix (List.suffix_append taken text) (by omega)
      obtain ⟨run', rest'', rfl, hrest⟩ := matches_percent.mp hmatches'
      exact matches_percent.mpr ⟨skipped ++ run', rest'', by rw [List.append_assoc], hrest⟩
  · exact .inl

theorem accepts_anyRun : Accepts ⟨text, after, some (after, text)⟩ ↔ Matches ('%' :: after) text := by
  rw [matches_percent]
  constructor
  · rintro (hmatches | ⟨after', start, run, rest, hretry, hstart, -, hmatches⟩)
    · exact ⟨[], text, rfl, hmatches⟩
    · cases hretry
      exact ⟨run, rest, hstart, hmatches⟩
  · rintro ⟨run, rest, rfl, hmatches⟩
    by_cases hrun : run = []
    · subst hrun
      exact .inl hmatches
    · exact .inr ⟨after, run ++ rest, run, rest, rfl, rfl, hrun, hmatches⟩

theorem Tracks.accepts (h : Tracks limit s) (hpass : s.pass = .inr s') : s'.Accepts ↔ s.Accepts := by
  have hcases := s.pass_cases
  rw [hpass] at hcases
  cases hcases with
  | anyRun => rw [h.accepts_percent, accepts_anyRun]
  | one hp hc =>
    refine or_congr ?_ Iff.rfl
    rw [matches_of_ne hp]
    constructor
    · intro hmatches
      exact ⟨_, _, rfl, hc, hmatches⟩
    · rintro ⟨c', rest', hsplit, -, hmatches⟩
      cases hsplit
      exact hmatches
  | @again c d rest pattern after start hno =>
    rw [accepts_anyRun, matches_percent]
    constructor
    · rintro ⟨run, rest', rfl, hmatches⟩
      exact .inr ⟨after, d :: (run ++ rest'), d :: run, rest', rfl, rfl, List.cons_ne_nil _ _, hmatches⟩
    · rintro (hmatches | ⟨after', start', run, rest', hretry, hstart, hrun, hmatches⟩)
      · exact absurd hmatches hno
      · cases hretry
        cases run with
        | nil => exact absurd rfl hrun
        | cons d' run => exact ⟨run, rest', (List.cons.inj hstart).2, hmatches⟩

theorem tracks_anyRun (hlimit : after.length ≤ limit) : Tracks limit ⟨text, after, some (after, text)⟩ where
  pattern := hlimit
  retry after' start' hretry := by
    cases hretry
    exact ⟨hlimit, [], [], rfl, rfl, List.not_mem_nil, rfl⟩

theorem Tracks.next (h : Tracks limit s) (hpass : s.pass = .inr s') : Tracks limit s' := by
  have hcases := s.pass_cases
  rw [hpass] at hcases
  cases hcases with
  | anyRun =>
    have hpattern := h.pattern
    exact tracks_anyRun (Nat.le_of_succ_le hpattern)
  | @one c p rest after retry hp hc =>
    have hpattern := h.pattern
    refine ⟨Nat.le_of_succ_le hpattern, fun after' start hretry => ?_⟩
    obtain ⟨hlimit, used, taken, rfl, rfl, hused, hlength⟩ := h.retry after' start hretry
    refine ⟨hlimit, used ++ [p], taken ++ [c], ?_, ?_, ?_, ?_⟩
    · rw [List.append_assoc, List.singleton_append]
    · rw [List.append_assoc, List.singleton_append]
    · simp [hused, hp.symm]
    · simp [hlength]
  | again =>
    obtain ⟨hlimit, -⟩ := h.retry _ _ rfl
    exact tracks_anyRun hlimit

theorem Tracks.work (h : Tracks limit s) (hpass : s.pass = .inr s') : s'.work limit < s.work limit := by
  have hcases := s.pass_cases
  rw [hpass] at hcases
  cases hcases with
  | @anyRun c rest after retry =>
    have hbudget : (c :: rest).length ≤ Retry.budget (c :: rest) retry := by
      cases retry with
      | none => exact Nat.le_succ _
      | some r =>
        obtain ⟨-, used, taken, -, hstart, -⟩ := h.retry r.1 r.2 rfl
        rw [Retry.budget, hstart, List.length_append]
        exact Nat.le_add_left _ _
    have hmul := Nat.mul_le_mul_right (limit + 1) hbudget
    simp only [Scan.work, Retry.budget, List.length_cons] at hmul ⊢
    omega
  | @one c p rest after retry =>
    have hbudget : Retry.budget rest retry ≤ Retry.budget (c :: rest) retry := by
      cases retry with
      | none => exact Nat.le_succ _
      | some r => exact Nat.le_refl _
    have hmul := Nat.mul_le_mul_right (limit + 1) hbudget
    simp only [Scan.work, List.length_cons]
    omega
  | again =>
    obtain ⟨hlimit, -⟩ := h.retry _ _ rfl
    simp only [Scan.work, Retry.budget, List.length_cons, Nat.succ_mul]
    omega

/-- The loop ends within the work that there is, and its answer tells whether the scan has something to find. -/
theorem Tracks.run {fuel : Nat} (h : Tracks limit s) (hfuel : s.work limit < fuel) :
    ∃ answer, s.run fuel = some answer ∧ (answer = true ↔ s.Accepts) := by
  induction fuel generalizing s with
  | zero => omega
  | succ fuel ih =>
    rw [Scan.run]
    cases hpass : s.pass with
    | inl answer => exact ⟨answer, rfl, h.answer_iff hpass⟩
    | inr s' =>
      have hless := h.work hpass
      obtain ⟨answer, hrun, hanswer⟩ := ih (h.next hpass) (by omega)
      exact ⟨answer, hrun, hanswer.trans (h.accepts hpass)⟩

/-! ### The scan -/

theorem scanLike_eq {fuel : Nat} {answer : Bool} (fits : ∀ r ∈ s.retry, s.text.length ≤ r.2.length)
    (hrun : s.run fuel = some answer) : scanLike s.text s.pattern s.retry fits = answer := by
  induction fuel generalizing s with
  | zero => cases hrun
  | succ fuel ih =>
    obtain ⟨text, pattern, retry⟩ := s
    rw [Scan.run] at hrun
    unfold scanLike
    cases text with
    | nil => exact Option.some.inj hrun
    | cons c rest =>
      simp only [pass] at hrun
      dsimp only
      split
      · rename_i after hhead
        simp only [hhead] at hrun
        exact ih _ hrun
      · rename_i after hhead
        simp only [hhead] at hrun
        exact ih _ hrun
      · rename_i hhead
        simp only [hhead] at hrun
        cases retry with
        | none => exact Option.some.inj hrun
        | some r =>
          obtain ⟨after, start⟩ := r
          cases start with
          | nil => exact Option.some.inj hrun
          | cons d start => exact ih _ hrun

theorem tracks_start (text pattern : List Char) : Tracks pattern.length ⟨text, pattern, none⟩ where
  pattern := Nat.le_refl _
  retry := nofun

theorem accepts_start (text pattern : List Char) : Accepts ⟨text, pattern, none⟩ ↔ Matches pattern text := by
  constructor
  · rintro (hmatches | ⟨after, start, run, rest, hretry, -⟩)
    · exact hmatches
    · cases hretry
  · exact .inl

theorem scanLike_start {text pattern : List Char} {fuel : Nat} {answer : Bool}
    (fits : ∀ r ∈ (none : Retry), text.length ≤ r.2.length) (hrun : Scan.run fuel ⟨text, pattern, none⟩ = some answer) :
    scanLike text pattern none fits = answer :=
  scanLike_eq fits hrun

theorem work_start (text pattern : List Char) :
    work pattern.length ⟨text, pattern, none⟩ < (text.length + 2) * (pattern.length + 1) := by
  simp only [work, Retry.budget, Nat.succ_mul]
  omega

end Scan

/-- LIKE decides whether the text in lower case matches the pattern in lower case, and for `n` characters of text and
`m` of pattern its loop ends within `(n + 2) * (m + 1)` passes. -/
theorem like_iff_matches (text pattern : String) :
    (like text pattern = true ↔ Matches (lower pattern).toList (lower text).toList) ∧
      Scan.run (((lower text).toList.length + 2) * ((lower pattern).toList.length + 1))
        ⟨(lower text).toList, (lower pattern).toList, none⟩ = some (like text pattern) := by
  have htracks := Scan.tracks_start (lower text).toList (lower pattern).toList
  obtain ⟨answer, hrun, hanswer⟩ := htracks.run (Scan.work_start _ _)
  have hlike : like text pattern = answer := Scan.scanLike_start _ hrun
  rw [hlike, hanswer, Scan.accepts_start]
  exact ⟨Iff.rfl, hrun⟩

/-- The first `bc` of the text is not its end, so that `%` has to take more. -/
example : Scan.run 28 ⟨"abcbc".toList, "%bc".toList, none⟩ = some true := by decide

end TabularQuery.Text
