import TabularQuery.Proofs.Action
import TabularQuery.Proofs.Lexing

/-!
Tokens and what stands between them. A call of a scanner takes a gap off the rest of the text, and then a token or a
fault, neither of which is empty; so every call that finds something left moves forward. The tokens of a text lie in it
one after another, blanks and comments fill the gaps between them, and each token is read as the same one where its text
stands alone.
-/

namespace TabularQuery

/-! ### Gaps -/

/-- Blanks and comments. A comment that is not closed may only be the end of the `last` gap of a text. -/
inductive Gap (last : Prop) : List Char → Prop
  | none : Gap last []
  | blank {c : Char} {cs : List Char} (hc : Text.isTokenBlank c) (rest : Gap last cs) : Gap last (c :: cs)
  | lineComment {body cs : List Char} (hbody : '\n' ∉ body) (rest : Gap last cs) :
      Gap last ('-' :: '-' :: (body ++ '\n' :: cs))
  | lastLineComment {body : List Char} (hlast : last) (hbody : '\n' ∉ body) : Gap last ('-' :: '-' :: body)
  | blockComment {body cs : List Char} (hbody : ¬ ['*', '/'] <:+: body) (rest : Gap last cs) :
      Gap last ('/' :: '*' :: (body ++ '*' :: '/' :: cs))
  | openBlockComment {body : List Char} (hlast : last) (hbody : ¬ ['*', '/'] <:+: body) :
      Gap last ('/' :: '*' :: body)

theorem Gap.imp {last last' : Prop} {cs : List Char} (h : Gap last cs) (himp : last → last') : Gap last' cs := by
  induction h with
  | none => exact .none
  | blank hc _ ih => exact .blank hc ih
  | lineComment hbody _ ih => exact .lineComment hbody ih
  | lastLineComment hlast hbody => exact .lastLineComment (himp hlast) hbody
  | blockComment hbody _ ih => exact .blockComment hbody ih
  | openBlockComment hlast hbody => exact .openBlockComment (himp hlast) hbody

/-- What is left of a gap inside of which a scanner is. -/
def GapMode.Covers (last : Prop) : GapMode → List Char → Prop
  | .blank, cs => Gap last cs
  | .lineComment, cs =>
    (∃ body rest, cs = body ++ '\n' :: rest ∧ '\n' ∉ body ∧ Gap last rest) ∨ last ∧ '\n' ∉ cs
  | .blockComment, cs =>
    (∃ body rest, cs = body ++ '*' :: '/' :: rest ∧ ¬ ['*', '/'] <:+: body ∧ Gap last rest) ∨
      last ∧ ¬ ['*', '/'] <:+: cs

theorem not_closed_cons {c : Char} {body : List Char} (hbody : ¬ ['*', '/'] <:+: body)
    (hc : c = '*' → body.head? ≠ some '/') : ¬ ['*', '/'] <:+: c :: body := by
  rw [List.infix_cons_iff, not_or]
  refine ⟨fun hprefix => ?_, hbody⟩
  obtain ⟨hstar, hslash⟩ := List.cons_prefix_cons.mp hprefix
  obtain ⟨rest, rfl⟩ := hslash
  exact hc hstar.symm rfl

theorem covers_splitGap (mode : GapMode) (cs : List Char) :
    mode.Covers ((splitGap mode cs).rest = []) (splitGap mode cs).taken := by
  fun_induction splitGap mode cs with
  | case1 mode =>
    cases mode with
    | blank => exact .none
    | lineComment => exact .inr ⟨rfl, by simp⟩
    | blockComment => exact .inr ⟨rfl, by simp⟩
  | case2 cs ih =>
    rcases ih with ⟨body, rest, htaken, hbody, hrest⟩ | ⟨hlast, hbody⟩
    · simp only [GapMode.Covers, Split.push, htaken]
      exact .lineComment hbody hrest
    · exact .lastLineComment hlast hbody
  | case3 cs ih =>
    rcases ih with ⟨body, rest, htaken, hbody, hrest⟩ | ⟨hlast, hbody⟩
    · simp only [GapMode.Covers, Split.push, htaken]
      exact .blockComment hbody hrest
    · exact .openBlockComment hlast hbody
  | case4 c cs _ _ hc ih => exact .blank hc ih
  | case5 c cs _ _ hc => exact .none
  | case6 c cs ih =>
    by_cases hc : c = '\n'
    · subst hc
      exact .inl ⟨[], _, rfl, by simp, ih⟩
    · rw [if_neg hc] at ih ⊢
      rcases ih with ⟨body, rest, htaken, hbody, hrest⟩ | ⟨hlast, hbody⟩
      · exact .inl ⟨c :: body, rest, congrArg (c :: ·) htaken, by simp [Ne.symm hc, hbody], hrest⟩
      · exact .inr ⟨hlast, by simp [Split.push, Ne.symm hc, hbody]⟩
  | case7 cs ih => exact .inl ⟨[], _, rfl, by simp, ih⟩
  | case8 c cs hnot ih =>
    -- a slash after a star would have closed the comment
    have hopen : ∀ body rest, (splitGap .blockComment cs).taken = body ++ rest → c = '*' → body.head? ≠ some '/' := by
      intro body rest htaken hstar hslash
      obtain ⟨body, rfl⟩ := List.head?_eq_some_iff.mp hslash
      have hwhole := splitGap_whole .blockComment cs
      rw [Split.whole, htaken] at hwhole
      exact hnot _ hstar hwhole.symm
    rcases ih with ⟨body, rest, htaken, hbody, hrest⟩ | ⟨hlast, hbody⟩
    · exact .inl ⟨c :: body, rest, congrArg (c :: ·) htaken, not_closed_cons hbody (hopen body _ htaken), hrest⟩
    · exact .inr ⟨hlast, not_closed_cons hbody (hopen _ [] (List.append_nil _).symm)⟩

/-- No gap starts with `c` before `r`. -/
structure GapFree (c : Char) (r : List Char) : Prop where
  blank : Text.isTokenBlank c = false
  minus : c = '-' → r.head? ≠ some '-'
  slash : c = '/' → r.head? ≠ some '*'

theorem gapFree_of_splitGap {mode : GapMode} {cs : List Char} {c : Char} {r : List Char}
    (h : (splitGap mode cs).rest = c :: r) : GapFree c r := by
  fun_induction splitGap mode cs with
  | case1 => cases h
  | case5 c cs hminus hslash hc =>
    cases h
    refine ⟨by simpa using hc, fun hc' hhead => ?_, fun hc' hhead => ?_⟩
    · obtain ⟨r, rfl⟩ := List.head?_eq_some_iff.mp hhead
      exact hminus r hc' rfl
    · obtain ⟨r, rfl⟩ := List.head?_eq_some_iff.mp hhead
      exact hslash r hc' rfl
  | case2 _ ih | case3 _ ih | case4 _ _ _ _ _ ih | case6 _ _ ih | case7 _ ih | case8 _ _ _ ih => exact ih h

theorem GapFree.of_append {c : Char} {l r : List Char} (h : GapFree c (l ++ r)) : GapFree c l := by
  have hhead : ∀ x, (l ++ r).head? ≠ some x → l.head? ≠ some x := by
    intro x hx hl
    obtain ⟨l, rfl⟩ := List.head?_eq_some_iff.mp hl
    exact hx rfl
  exact ⟨h.blank, fun hc => hhead _ (h.minus hc), fun hc => hhead _ (h.slash hc)⟩

section ClosedGaps

variable {g r : List Char}

theorem Gap.append {last : Prop} (h : Gap False g) (h' : Gap last r) : Gap last (g ++ r) := by
  induction h with
  | none => exact h'
  | blank hc _ ih => exact .blank hc ih
  | lineComment hbody _ ih => simpa using Gap.lineComment hbody ih
  | lastLineComment hlast => exact hlast.elim
  | blockComment hbody _ ih => simpa using Gap.blockComment hbody ih
  | openBlockComment hlast => exact hlast.elim

theorem splitGap_lineComment {body : List Char} (hbody : '\n' ∉ body) (cs : List Char) :
    (splitGap .lineComment (body ++ '\n' :: cs)).rest = (splitGap .blank cs).rest := by
  induction body with
  | nil => rfl
  | cons c body ih =>
    rw [List.mem_cons, not_or] at hbody
    simpa [splitGap, Ne.symm hbody.1, Split.push] using ih hbody.2

theorem splitGap_blockComment {body : List Char} (hbody : ¬ ['*', '/'] <:+: body) (cs : List Char) :
    (splitGap .blockComment (body ++ '*' :: '/' :: cs)).rest = (splitGap .blank cs).rest := by
  induction body with
  | nil => rfl
  | cons c body ih =>
    rw [List.infix_cons_iff, not_or] at hbody
    -- the comment is not closed by this character and the next
    have hopen : ∀ l, c = '*' → body ++ '*' :: '/' :: cs ≠ '/' :: l := by
      rintro l rfl hslash
      cases body with
      | nil => cases hslash
      | cons d body =>
        cases hslash
        exact hbody.1 ⟨body, rfl⟩
    rw [List.cons_append, splitGap]
    · exact ih hbody.2
    · exact hopen

theorem Gap.rest_splitGap (h : Gap False g) (cs : List Char) :
    (splitGap .blank (g ++ cs)).rest = (splitGap .blank cs).rest := by
  induction h with
  | none => rfl
  | @blank c g hc _ ih =>
    have hminus : c ≠ '-' := by
      rintro rfl
      cases hc
    have hslash : c ≠ '/' := by
      rintro rfl
      cases hc
    simpa [splitGap, hc, hminus, hslash, Split.push] using ih
  | lineComment hbody _ ih =>
    have hcomment := splitGap_lineComment hbody
    simpa [splitGap, Split.push, hcomment] using ih
  | lastLineComment hlast => exact hlast.elim
  | blockComment hbody _ ih =>
    have hcomment := splitGap_blockComment hbody
    simpa [splitGap, Split.push, hcomment] using ih
  | openBlockComment hlast => exact hlast.elim

end ClosedGaps

/-! ### Texts between others -/

theorem Scanner.next_of_splitToken {s : Scanner} {c : Char} {cs : List Char} {k : TokenKind} {split : Split}
    (hrest : (splitGap .blank s.rest).rest = c :: cs) (hsplit : splitToken c cs = .ok (k, split)) :
    ∃ t s₁, s.next = (.ok t, s₁) ∧ t.kind = k ∧ t.text = String.ofList split.taken ∧ s₁.rest = split.rest := by
  have hgap : s.skipGap.rest = c :: cs := hrest
  simp only [next, hgap, hsplit]
  exact ⟨_, _, rfl, rfl, rfl, rfl⟩

/-- Before `r`, and after a closed gap, the characters are read as tokens of which `P` holds and a closed gap. -/
def Spells (cs : List Char) (P : List Token → Prop) (r : List Char) : Prop :=
  ∀ (s : Scanner) (g : List Char), Gap False g → s.rest = g ++ (cs ++ r) →
    ∃ u s' g', Scanner.Scans s u s' ∧ Gap False g' ∧ s'.rest = g' ++ r ∧ P u

namespace Spells

variable {cs cs' r : List Char} {P Q : List Token → Prop}

theorem lexeme {k : TokenKind} (h : Lexeme k cs r) (hk : k ≠ .eof) :
    Spells cs (fun u => ∃ t : Token, u = [t] ∧ t.kind = k ∧ t.text = String.ofList cs) r := by
  intro s g hg hs
  obtain ⟨c, rest, hcons, hsplit⟩ := h.split
  have hgap : (splitGap .blank s.rest).rest = c :: rest := by rw [hs, hg.rest_splitGap, h.gap, hcons]
  obtain ⟨t, s₁, hnext, hkind, htext, hrest⟩ := Scanner.next_of_splitToken hgap hsplit
  exact ⟨[t], s₁, [], .more hnext (hkind ▸ hk) .none, .none, hrest, t, rfl, hkind, htext⟩

theorem nil : Spells [] (fun u => u = []) r :=
  fun s g hg hs => ⟨[], s, g, .none, hg, hs, rfl⟩

theorem append (h : Spells cs P (cs' ++ r)) (h' : ∀ u, P u → Spells cs' (fun v => Q (u ++ v)) r) :
    Spells (cs ++ cs') Q r := by
  intro s g hg hs
  rw [List.append_assoc] at hs
  obtain ⟨u, s₁, g₁, hscans, hg₁, hrest, hu⟩ := h s g hg hs
  obtain ⟨v, s₂, g₂, hscans', hg₂, hrest', hv⟩ := h' u hu s₁ g₁ hg₁ hrest
  exact ⟨u ++ v, s₂, g₂, hscans.append hscans', hg₂, hrest', hv⟩

theorem space (h : Spells cs P r) : Spells (' ' :: cs) P r := by
  intro s g hg hs
  have hspace : Gap False [' '] := .blank rfl .none
  exact h s (g ++ [' ']) (hg.append hspace) (by simpa using hs)

theorem mono (h : Spells cs P r) (hP : ∀ u, P u → Q u) : Spells cs Q r := by
  intro s g hg hs
  obtain ⟨u, s₁, g₁, hscans, hg₁, hrest, hu⟩ := h s g hg hs
  exact ⟨u, s₁, g₁, hscans, hg₁, hrest, hP u hu⟩

theorem mark {c : Char} {k : TokenKind}
    (h : (k, c) ∈ [(.lparen, '('), (.rparen, ')'), (.comma, ','), (.dot, '.')]) :
    Spells [c] (fun w => ∃ t : Token, w = [t] ∧ t.kind = k) r := by
  have hk : k ≠ .eof := by
    rintro rfl
    simp at h
  refine (lexeme (lexeme_mark h) hk).mono fun w hw => ?_
  obtain ⟨t, hw, hkind, -⟩ := hw
  exact ⟨t, hw, hkind⟩

theorem enclosed (h : Spells cs P (')' :: r)) :
    Spells (['('] ++ (cs ++ [')'])) (fun w => ∃ (lparen rparen : Token) (u : List Token),
      w = lparen :: (u ++ [rparen]) ∧ lparen.kind = .lparen ∧ P u ∧ rparen.kind = .rparen) r := by
  refine (mark (k := .lparen) (by simp)).append fun v hv => ?_
  obtain ⟨lparen, rfl, opens⟩ := hv
  refine h.append fun u hu => ?_
  refine (mark (k := .rparen) (by simp)).mono fun v hv => ?_
  obtain ⟨rparen, rfl, closes⟩ := hv
  exact ⟨lparen, rparen, u, rfl, opens, hu, closes⟩

theorem tokenize {text : String} (h : Spells text.toList P []) :
    ∃ (u : List Token) (stop : Token), TabularQuery.tokenize text = .ok (u ++ [stop]) ∧ stop.kind = .eof ∧ P u := by
  obtain ⟨u, s, g, hscans, hg, hrest, hu⟩ := h (.ofText text) [] .none (by simp [Scanner.ofText])
  have hgap : (splitGap .blank s.rest).rest = [] := by
    rw [hrest, hg.rest_splitGap]
    rfl
  obtain ⟨stop, hstop, htokens⟩ := Scanner.tokens_of_scans hscans hgap
  exact ⟨u, stop, htokens, hstop, hu⟩

end Spells

/-! ### Tokens by themselves -/

section Alone

variable {c : Char} {cs : List Char} {k : TokenKind} {s : Split}

theorem splitBracket_taken (h : splitBracket cs = some s) : splitBracket s.taken = some ⟨s.taken, []⟩ := by
  induction cs generalizing s with
  | nil => cases h
  | cons c cs ih =>
    rw [splitBracket] at h
    split at h
    · next hc =>
      cases h
      simp [splitBracket, hc]
    · next hc =>
      obtain ⟨s, hs, rfl⟩ := Option.map_eq_some_iff.mp h
      simp [Split.push, splitBracket, hc, ih hs]

theorem splitQuote_taken (h : splitQuote cs = some s) : splitQuote s.taken = some ⟨s.taken, []⟩ := by
  fun_induction splitQuote cs generalizing s with
  | case1 cs ih =>
    obtain ⟨s, hs, rfl⟩ := Option.map_eq_some_iff.mp h
    simp [Split.push, splitQuote, ih hs]
  | case2 cs hnot =>
    cases h
    rfl
  | case3 c cs hnot hnot' ih =>
    obtain ⟨s, hs, rfl⟩ := Option.map_eq_some_iff.mp h
    have hc : c ≠ '\'' := by
      rintro rfl
      exact hnot' rfl
    simp [Split.push, splitQuote, hc, ih hs]
  | case4 => cases h

theorem operator?_taken (h : operator? c cs = some (k, s)) :
    ∃ l, s.taken = c :: l ∧ operator? c l = some (k, ⟨c :: l, []⟩) := by
  unfold operator? at h
  split at h
  case h_6 =>
    obtain ⟨k', hk, heq⟩ := Option.map_eq_some_iff.mp h
    cases heq
    exact ⟨[], rfl, by simp [operator?, hk]⟩
  all_goals
    cases h
    exact ⟨_, rfl, rfl⟩

theorem forall_splitWhile_taken (p : Char → Bool) (cs : List Char) : ∀ x ∈ (splitWhile p cs).taken, p x := by
  intro x hx
  exact List.all_eq_true.mp List.all_takeWhile x hx

theorem splitWhile_taken (p : Char → Bool) (cs : List Char) :
    splitWhile p (splitWhile p cs).taken = ⟨(splitWhile p cs).taken, []⟩ := by
  have h := splitWhile_append (r := []) (forall_splitWhile_taken p cs) nofun
  rwa [List.append_nil] at h

theorem splitWhile_taken_cons {p : Char → Bool} (hc : p c) (cs : List Char) :
    (splitWhile p (c :: cs)).taken = c :: (splitWhile p cs).taken := by
  simp [splitWhile, hc]

theorem splitNumber_digits (cs : List Char) :
    splitNumber (splitWhile Char.isDigit cs).taken = (.integer, ⟨(splitWhile Char.isDigit cs).taken, []⟩) := by
  simp only [splitNumber, splitWhile_taken]

theorem splitNumber_point (cs : List Char) {d : Char} (hd : d.isDigit) (rest : List Char) :
    splitNumber ((splitWhile Char.isDigit cs).taken ++ '.' :: (splitWhile Char.isDigit (d :: rest)).taken) =
      (.real, ⟨(splitWhile Char.isDigit cs).taken ++ '.' :: (splitWhile Char.isDigit (d :: rest)).taken, []⟩) := by
  have hwhole := splitWhile_append (r := '.' :: (splitWhile Char.isDigit (d :: rest)).taken)
    (forall_splitWhile_taken Char.isDigit cs) (by simp)
  have hfraction := splitWhile_taken Char.isDigit (d :: rest)
  rw [splitWhile_taken_cons hd] at hwhole hfraction ⊢
  simp only [splitNumber, hwhole, hd, hfraction, if_true]

theorem splitNumber_taken (hc : c.isDigit) (h : splitNumber (c :: cs) = (k, s)) :
    ∃ l, s.taken = c :: l ∧ splitNumber (c :: l) = (k, ⟨c :: l, []⟩) := by
  have hinteger : splitNumber (c :: (splitWhile Char.isDigit cs).taken) =
      (.integer, ⟨c :: (splitWhile Char.isDigit cs).taken, []⟩) := by
    have hdigits := splitNumber_digits (c :: cs)
    rwa [splitWhile_taken_cons hc] at hdigits
  unfold splitNumber at h
  simp only at h
  split at h
  · next d rest _ =>
    split at h
    · next hd =>
      have hreal := splitNumber_point (c :: cs) hd rest
      rw [splitWhile_taken_cons hc, List.cons_append] at hreal
      cases h
      exact ⟨_, by rw [splitWhile_taken_cons hc, List.cons_append], hreal⟩
    · cases h
      exact ⟨_, splitWhile_taken_cons hc cs, hinteger⟩
  · cases h
    exact ⟨_, splitWhile_taken_cons hc cs, hinteger⟩

/-- The text of a token, with nothing after it, is split off as the same token. -/
theorem splitToken_taken (h : splitToken c cs = .ok (k, s)) :
    ∃ l, s.taken = c :: l ∧ splitToken c l = .ok (k, ⟨c :: l, []⟩) := by
  unfold splitToken at h ⊢
  split at h
  · next hdigit =>
    obtain ⟨l, htaken, hnumber⟩ := splitNumber_taken hdigit (Except.ok.inj h)
    exact ⟨l, htaken, by rw [if_pos hdigit, hnumber]⟩
  next hdigit =>
  split at h
  · next hword =>
    cases h
    have htaken := splitWhile_taken_cons (isWordChar_of_isWordStart hword) cs
    have hsplit := splitWhile_taken isWordChar (c :: cs)
    rw [htaken] at hsplit ⊢
    exact ⟨_, rfl, by rw [if_neg hdigit, if_pos hword, hsplit]⟩
  next hword =>
  split at h
  · next hbracket =>
    split at h
    · next t ht =>
      cases h
      refine ⟨t.taken, rfl, ?_⟩
      simp only [if_neg hdigit, if_neg hword, if_pos hbracket, splitBracket_taken ht, Split.push]
    · cases h
  next hbracket =>
  split at h
  · next hquote =>
    split at h
    · next t ht =>
      cases h
      exact ⟨t.taken, rfl,
        by simp only [if_neg hdigit, if_neg hword, if_neg hbracket, if_pos hquote, splitQuote_taken ht, Split.push]⟩
    · cases h
  next hquote =>
  split at h
  · next token htoken =>
    cases h
    obtain ⟨l, htaken, hoperator⟩ := operator?_taken htoken
    exact ⟨l, htaken, by simp only [if_neg hdigit, if_neg hword, if_neg hbracket, if_neg hquote, hoperator]⟩
  · cases h

theorem ofWord_kind (word : String) : TokenKind.ofWord word ≠ .text ∧ TokenKind.ofWord word ≠ .eof := by
  rw [TokenKind.ofWord]
  cases hk : TokenKind.keywords.lookup (word.map Char.toUpper) with
  | none => decide
  | some k =>
    obtain ⟨before, after, hkeywords, -⟩ := List.lookup_eq_some_iff.mp hk
    have hkeyword : ∀ entry ∈ TokenKind.keywords, entry.2 ≠ .text ∧ entry.2 ≠ .eof := by decide
    exact hkeyword (word.map Char.toUpper, k) (by simp [hkeywords])

theorem splitNumber_kind (cs : List Char) : (splitNumber cs).1 ≠ .text ∧ (splitNumber cs).1 ≠ .eof := by
  unfold splitNumber
  simp only
  split
  · split <;> simp
  · simp

theorem splitToken_ne_eof (h : splitToken c cs = .ok (k, s)) : k ≠ .eof := by
  unfold splitToken at h
  split at h
  · have hnumber := splitNumber_kind (c :: cs)
    rw [Except.ok.inj h] at hnumber
    exact hnumber.2
  split at h
  · cases h
    exact (ofWord_kind _).2
  split at h
  · split at h <;> cases h
    decide
  split at h
  · split at h <;> cases h
    decide
  split at h
  · next token htoken =>
    cases h
    exact (operator?_kind htoken).2.2
  · cases h

theorem splitToken_fault {fault : TokenFault} (h : splitToken c cs = .error fault) :
    fault = .unclosedIdentifier ∧ c = '[' ∨ fault = .unclosedText ∧ c = '\'' ∨ fault = .unexpected c := by
  unfold splitToken at h
  split at h
  · cases h
  split at h
  · cases h
  split at h
  · next hc =>
    split at h <;> cases h
    exact .inl ⟨rfl, hc⟩
  split at h
  · next hc =>
    split at h <;> cases h
    exact .inr (.inl ⟨rfl, hc⟩)
  split at h
  · cases h
  · cases h
    exact .inr (.inr rfl)

end Alone

/-! ### Passed text -/

namespace Scanner

section Passing

variable {source : String} {before : List Char} {s s' : Scanner} {split : Split}

@[simp] theorem bytes_nil : bytes [] = 0 := rfl

theorem bytes_append (cs ds : List Char) : bytes (cs ++ ds) = bytes cs + bytes ds := by
  have hfold : ∀ (l : List Char) (n : Nat), l.foldl (fun n c => n + c.utf8Size) n = n + bytes l := by
    intro l
    induction l with
    | nil => intro n; rfl
    | cons c l ih =>
      intro n
      rw [bytes, List.foldl_cons, List.foldl_cons, ih, ih]
      omega
  rw [bytes, List.foldl_append, hfold]
  rfl

theorem bytes_pos {cs : List Char} (h : cs ≠ []) : 0 < bytes cs := by
  obtain ⟨c, cs, rfl⟩ := List.exists_cons_of_ne_nil h
  have hc : 0 < bytes [c] := by simp [bytes, Char.utf8Size_pos]
  rw [← List.singleton_append, bytes_append]
  omega

theorem utf8ByteSize_ofList (cs : List Char) : (String.ofList cs).utf8ByteSize = bytes cs := by
  induction cs with
  | nil => rfl
  | cons c cs ih =>
    rw [← List.singleton_append, String.ofList_append, String.utf8ByteSize_append, bytes_append, ih,
      ← String.singleton_eq_ofList, String.utf8ByteSize_singleton]
    simp [bytes]

/-- The scanner has passed `before` of the text and stands at its end. -/
structure Passed (source : String) (before : List Char) (s : Scanner) : Prop where
  text : source.toList = before ++ s.rest
  offset : s.offset = bytes before

theorem passed_ofText (source : String) : Passed source [] (ofText source) where
  text := rfl
  offset := rfl

theorem Passed.pass (h : Passed source before s) (hsplit : split.whole = s.rest) (lines : Bool) :
    Passed source (before ++ split.taken) (s.pass lines split) where
  text := by
    rw [h.text, ← hsplit, Split.whole, rest_pass, List.append_assoc]
  offset := by
    rw [Scanner.pass, h.offset, bytes_append]

/-- The blanks and comments before the next token. -/
def gap (s : Scanner) : List Char := (splitGap .blank s.rest).taken

theorem Passed.skipGap (h : Passed source before s) : Passed source (before ++ s.gap) s.skipGap :=
  h.pass (splitGap_whole .blank s.rest) true

/-- What a call does after the gap: it finds nothing, a token, or a fault. -/
inductive Calls (s : Scanner) : Except Error Token → Scanner → Prop
  | stop (hrest : s.skipGap.rest = []) :
      Calls s (.ok ⟨.eof, "", s.skipGap.offset, s.skipGap.offset, s.skipGap.place⟩) s.skipGap
  | token {c : Char} {cs : List Char} {kind : TokenKind} {split : Split} (hrest : s.skipGap.rest = c :: cs)
      (hsplit : splitToken c cs = .ok (kind, split)) :
      Calls s (.ok ⟨kind, String.ofList split.taken, s.skipGap.offset, (s.skipGap.pass (c ≠ '[') split).offset,
        s.skipGap.place⟩) (s.skipGap.pass (c ≠ '[') split)
  | fault {c : Char} {cs : List Char} {fault : TokenFault} (hrest : s.skipGap.rest = c :: cs)
      (hfault : splitToken c cs = .error fault) :
      Calls s (.error (s.skipGap.recover c cs fault).1) (s.skipGap.recover c cs fault).2

theorem calls_next (s : Scanner) : Calls s s.next.1 s.next.2 := by
  unfold next
  simp only
  split
  · next hrest => exact .stop hrest
  · next c cs hrest =>
    split
    · next kind split hsplit => exact .token hrest hsplit
    · next fault hfault => exact .fault hrest hfault

theorem calls_of_next {r : Except Error Token} (h : s.next = (r, s')) : Calls s r s' := by
  have hcalls := calls_next s
  rwa [h] at hcalls

theorem recover_pass {c : Char} {cs : List Char} {fault : TokenFault} (h : splitToken c cs = .error fault) :
    ∃ lines split, (s.recover c cs fault).2 = s.pass lines split ∧ split.whole = c :: cs ∧ split.taken ≠ [] := by
  rcases splitToken_fault h with ⟨rfl, -⟩ | ⟨rfl, -⟩ | rfl
  · exact ⟨false, ⟨c :: cs, []⟩, rfl, by simp, by simp⟩
  · exact ⟨true, ⟨c :: cs, []⟩, rfl, by simp, by simp⟩
  · exact ⟨true, ⟨[c], cs⟩, rfl, by simp, by simp⟩

theorem Passed.skipGap_pass (h : Passed source before s) (hwhole : split.whole = s.skipGap.rest) (lines : Bool) :
    Passed source (before ++ (s.gap ++ split.taken)) (s.skipGap.pass lines split) := by
  rw [← List.append_assoc]
  exact h.skipGap.pass hwhole lines

/-- A call passes a piece of the text, which is empty only where nothing is left. -/
theorem Passed.call {r : Except Error Token} (h : Passed source before s) (hcalls : Calls s r s') :
    ∃ taken, Passed source (before ++ taken) s' ∧ (taken = [] → s.rest = []) := by
  cases hcalls with
  | stop hrest =>
    refine ⟨s.gap, h.skipGap, fun htaken => ?_⟩
    have hwhole := splitGap_whole .blank s.rest
    rw [Split.whole, ← gap, htaken] at hwhole
    exact hwhole.symm.trans hrest
  | @token c cs kind split hrest hsplit =>
    obtain ⟨hwhole, hsome⟩ := splitToken_whole hsplit
    exact ⟨_, h.skipGap_pass (hwhole.trans hrest.symm) _,
      fun htaken => absurd (List.append_eq_nil_iff.mp htaken).2 hsome⟩
  | fault hrest hfault =>
    obtain ⟨lines, split, heq, hwhole, hsome⟩ := recover_pass (s := s.skipGap) hfault
    rw [heq]
    exact ⟨_, h.skipGap_pass (hwhole.trans hrest.symm) _,
      fun htaken => absurd (List.append_eq_nil_iff.mp htaken).2 hsome⟩

/-- The scanner after so many calls, whatever these have given. -/
def afterCalls (s : Scanner) : Nat → Scanner
  | 0 => s
  | n + 1 => s.next.2.afterCalls n

theorem Passed.afterCalls (h : Passed source before s) (n : Nat) : ∃ taken, Passed source taken (s.afterCalls n) := by
  induction n generalizing s before with
  | zero => exact ⟨before, h⟩
  | succ n ih =>
    obtain ⟨taken, hnext, -⟩ := h.call (calls_next s)
    exact ih hnext

theorem Passed.offset_lt (h : Passed source before s) (hrest : s.rest ≠ []) : s.offset < s.next.2.offset := by
  obtain ⟨taken, hnext, hempty⟩ := h.call (calls_next s)
  have hpos : 0 < bytes taken := bytes_pos fun htaken => hrest (hempty htaken)
  rw [h.offset, hnext.offset, bytes_append]
  omega

theorem Passed.size (h : Passed source before s) : source.utf8ByteSize = s.offset + bytes s.rest := by
  rw [h.offset, ← bytes_append, ← h.text, ← utf8ByteSize_ofList, String.ofList_toList]

end Passing

/-! ### Tokens in their places -/

section Reading

variable {source : String} {before : List Char} {s s₁ s₂ : Scanner} {t : Token} {u toks : List Token}

theorem Calls.start_eq (h : Calls s (.ok t) s₁) : t.start = s.skipGap.offset := by
  cases h <;> rfl

theorem Calls.stop_eq (h : Calls s (.ok t) s₁) : t.stop = s₁.offset := by
  cases h <;> rfl

theorem Calls.gap (h : Calls s (.ok t) s₁) : Gap (t.kind = .eof) s.gap := by
  have hgap : Gap (s.skipGap.rest = []) s.gap := covers_splitGap .blank s.rest
  apply hgap.imp
  intro hempty
  cases h with
  | stop hrest => rfl
  | token hrest hsplit => exact absurd (hempty.symm.trans hrest) (List.cons_ne_nil _ _).symm

theorem Calls.kind_eq_eof_iff (h : Calls s (.ok t) s₁) : t.kind = .eof ↔ t.text = "" ∧ s₁.rest = [] := by
  cases h with
  | stop hrest => exact ⟨fun _ => ⟨rfl, hrest⟩, fun _ => rfl⟩
  | token hrest hsplit =>
    constructor
    · intro heof
      exact absurd heof (splitToken_ne_eof hsplit)
    · rintro ⟨htext, -⟩
      exact absurd (String.ofList_eq_empty_iff.mp htext) (splitToken_whole hsplit).2

theorem Calls.rest_eq (h : Calls s (.ok t) s₁) : s.skipGap.rest = t.text.toList ++ s₁.rest := by
  cases h with
  | stop hrest =>
    rw [String.toList_empty, List.nil_append]
  | token hrest hsplit => rw [hrest, ← (splitToken_whole hsplit).1, String.toList_ofList, Split.whole, rest_pass]

theorem Passed.token (h : Passed source before s) (hcalls : Calls s (.ok t) s₁) :
    Passed source (before ++ s.gap ++ t.text.toList) s₁ := by
  cases hcalls with
  | stop hrest =>
    rw [String.toList_empty, List.append_nil]
    exact h.skipGap
  | token hrest hsplit =>
    rw [String.toList_ofList]
    exact h.skipGap.pass ((splitToken_whole hsplit).1.trans hrest.symm) _

theorem Calls.alone (h : Calls s (.ok t) s₁) (hkind : t.kind ≠ .eof) :
    ∃ u stop, tokenize t.text = .ok [u, stop] ∧ u.kind = t.kind ∧ u.text = t.text ∧ stop.kind = .eof := by
  cases h with
  | stop hrest => exact absurd rfl hkind
  | @token c cs kind split hrest hsplit =>
    obtain ⟨l, htaken, hsplit'⟩ := splitToken_taken hsplit
    have hfree : GapFree c l := by
      have hcs : GapFree c cs := gapFree_of_splitGap (show (splitGap .blank s.rest).rest = c :: cs from hrest)
      have hwhole := (splitToken_whole hsplit).1
      rw [Split.whole, htaken, List.cons_append, List.cons.injEq] at hwhole
      rw [← hwhole.2] at hcs
      exact hcs.of_append
    have hlexeme : Lexeme kind (c :: l) [] := by
      apply lexeme_of_splitToken
      · rwa [List.append_nil]
      · exact hfree.blank
      · rw [List.append_nil]
        exact hfree.minus
      · rw [List.append_nil]
        exact hfree.slash
    rw [← htaken, ← String.toList_ofList (l := split.taken)] at hlexeme
    obtain ⟨u, stop, htokens, hstop, v, rfl, hv, htext⟩ := (Spells.lexeme hlexeme hkind).tokenize
    exact ⟨v, stop, htokens, hv, htext.trans String.ofList_toList, hstop⟩

theorem Scans.offset_eq (h : Scans s u s₁) : s₁.offset = (u.getLast?.map Token.stop).getD s.offset := by
  induction h with
  | none => rfl
  | @more s s₁ s₂ t u next notLast rest ih =>
    rw [ih, List.getLast?_cons, ← (calls_of_next next).stop_eq]
    cases u.getLast? <;> rfl

theorem Scans.passed (h : Scans s u s₁) (hpassed : Passed source before s) : ∃ taken, Passed source taken s₁ := by
  induction h generalizing before with
  | none => exact ⟨before, hpassed⟩
  | more next _ _ ih => exact ih (hpassed.token (calls_of_next next))

theorem scans_of_append {earlier later : List Token} (h : s.tokens = .ok (earlier ++ t :: later)) :
    ∃ s₁ s₂, Scans s earlier s₁ ∧ s₁.next = (.ok t, s₂) := by
  fun_induction tokens s generalizing earlier with
  | case1 s e s₁ hnext => cases h
  | case2 s x s₁ hnext last =>
    cases earlier with
    | nil =>
      cases h
      exact ⟨s, s₁, .none, hnext⟩
    | cons y earlier => simp at h
  | case3 s x s₁ hnext notLast hlt ih =>
    obtain ⟨rest, hrest, heq⟩ := except_map_eq_ok.mp h
    cases earlier with
    | nil =>
      cases heq
      exact ⟨s, s₁, .none, hnext⟩
    | cons y earlier =>
      obtain ⟨rfl, rfl⟩ := List.cons.inj heq
      obtain ⟨s₂, s₃, hscans, hlast⟩ := ih hrest
      exact ⟨s₂, s₃, .more hnext notLast hscans, hlast⟩

theorem Calls.offset_le (h : Calls s (.ok t) s₁) : s.offset ≤ t.start := by
  rw [h.start_eq]
  exact Nat.le_add_right _ _

theorem Calls.start_lt (h : Calls s (.ok t) s₁) (hkind : t.kind ≠ .eof) : t.start < t.stop := by
  cases h with
  | stop hrest => exact absurd rfl hkind
  | token hrest hsplit => exact Nat.lt_add_of_pos_right (bytes_pos (splitToken_whole hsplit).2)

/-- Tokens that are read one after another lie in this order between the two places. -/
theorem Scans.ordered (h : Scans s u s₁) :
    (∀ t ∈ u, s.offset ≤ t.start ∧ t.start < t.stop ∧ t.stop ≤ s₁.offset) ∧ s.offset ≤ s₁.offset ∧
      u.Pairwise fun t v => t.start < v.start ∧ t.stop ≤ v.start := by
  induction h with
  | none => simp
  | @more s s₁ s₂ t u next notLast rest ih =>
    obtain ⟨hwithin, hle, hordered⟩ := ih
    have hcalls := calls_of_next next
    have hstart := hcalls.offset_le
    have hstop := hcalls.stop_eq
    have hlt := hcalls.start_lt notLast
    refine ⟨?_, by omega, List.pairwise_cons.mpr ⟨?_, hordered⟩⟩
    · intro v hv
      rcases List.mem_cons.mp hv with rfl | hv
      · omega
      · have := hwithin v hv
        omega
    · intro v hv
      have := hwithin v hv
      omega

end Reading

end Scanner

/-! ### Texts -/

/-- `piece` stands in the text from the byte `start` up to the byte `stop`, both of which are between characters. -/
def Spans (source : String) (start stop : Nat) (piece : String) : Prop :=
  ∃ before after, source = before ++ piece ++ after ∧ before.utf8ByteSize = start ∧
    (before ++ piece).utf8ByteSize = stop

theorem spans_of_append {source : String} {before piece after : List Char}
    (h : source.toList = before ++ piece ++ after) :
    Spans source (Scanner.bytes before) (Scanner.bytes (before ++ piece)) (String.ofList piece) := by
  refine ⟨String.ofList before, String.ofList after, ?_, Scanner.utf8ByteSize_ofList before, ?_⟩
  · rw [← String.ofList_append, ← String.ofList_append, ← h, String.ofList_toList]
  · rw [← String.ofList_append, Scanner.utf8ByteSize_ofList]

/-- Where the last of some tokens ends. -/
def endOf (tokens : List Token) : Nat := (tokens.getLast?.map Token.stop).getD 0

/-- The tokens in `body` and the last one, `stop`, cover the text but for the gaps between them. -/
structure Tiles (source : String) (body : List Token) (stop : Token) : Prop where
  /-- The last token is the empty one at the end of the text. -/
  last : stop.kind = .eof ∧ stop.start = source.utf8ByteSize ∧ stop.stop = source.utf8ByteSize
  /-- There is no other such token, and no other empty one. -/
  nonempty : ∀ t ∈ body, t.kind ≠ .eof ∧ t.start < t.stop
  ordered : (body ++ [stop]).Pairwise fun t u => t.start < u.start ∧ t.stop ≤ u.start
  spans : ∀ t ∈ body ++ [stop], Spans source t.start t.stop t.text
  gaps : ∀ earlier t later, body ++ [stop] = earlier ++ t :: later →
    ∃ gap, Spans source (endOf earlier) t.start gap ∧ Gap (t.kind = .eof) gap.toList
  /-- By itself the text of a token is read as one token of the kind, before the end of the text. -/
  alone : ∀ t ∈ body, ∃ u stop', tokenize t.text = .ok [u, stop'] ∧ u.kind = t.kind ∧ u.text = t.text ∧
    stop'.kind = .eof
  aloneLast : ∃ u, tokenize stop.text = .ok [u] ∧ u.kind = .eof

/-- The scanner that reads a token of a text has passed all that stands before the gap. -/
theorem passed_of_tokenize {source : String} {t : Token} {earlier later : List Token}
    (h : tokenize source = .ok (earlier ++ t :: later)) : ∃ before s s₁,
      Scanner.Scans (.ofText source) earlier s ∧ s.Calls (.ok t) s₁ ∧ Scanner.Passed source before s ∧
        s.offset = endOf earlier := by
  obtain ⟨s, s₁, hscans, hnext⟩ := Scanner.scans_of_append h
  obtain ⟨before, hpassed⟩ := hscans.passed (Scanner.passed_ofText source)
  exact ⟨before, s, s₁, hscans, Scanner.calls_of_next hnext, hpassed, hscans.offset_eq⟩

section Token

variable {source : String} {before : List Char} {s s₁ : Scanner} {t : Token}

theorem Scanner.Passed.spans_token (h : Passed source before s) (hcalls : Calls s (.ok t) s₁) :
    Spans source t.start t.stop t.text := by
  have htoken := h.token hcalls
  have hspans := spans_of_append htoken.text
  rwa [← htoken.offset, ← h.skipGap.offset, ← hcalls.start_eq, ← hcalls.stop_eq, String.ofList_toList] at hspans

theorem Scanner.Passed.spans_gap (h : Passed source before s) (hcalls : Calls s (.ok t) s₁) :
    Spans source s.offset t.start (String.ofList s.gap) := by
  have hspans := spans_of_append h.skipGap.text
  rwa [← h.offset, ← h.skipGap.offset, ← hcalls.start_eq] at hspans

theorem Scanner.Passed.last_token (h : Passed source before s) (hcalls : Calls s (.ok t) s₁) (hkind : t.kind = .eof) :
    t.start = source.utf8ByteSize ∧ t.stop = source.utf8ByteSize := by
  obtain ⟨htext, hrest⟩ := hcalls.kind_eq_eof_iff.mp hkind
  have htoken := h.token hcalls
  have hsize := htoken.size
  have hoffset := htoken.offset
  rw [hrest, bytes_nil, Nat.add_zero] at hsize
  rw [htext, String.toList_empty, List.append_nil, ← h.skipGap.offset] at hoffset
  rw [hcalls.start_eq, hcalls.stop_eq, hsize, hoffset]
  exact ⟨rfl, rfl⟩

end Token

theorem tiles_of_tokenize {source : String} {tokens : List Token} (h : tokenize source = .ok tokens) :
    ∃ body stop, tokens = body ++ [stop] ∧ Tiles source body stop := by
  obtain ⟨body, stop, s, rfl, hstop, hscans, s₁, hnext⟩ := Scanner.scans_of_tokens h
  obtain ⟨hwithin, -, hordered⟩ := hscans.ordered
  have hcalls := Scanner.calls_of_next hnext
  refine ⟨body, stop, rfl, ?_, ?_, ?_, ?_, ?_, ?_, ?_⟩
  · obtain ⟨before, hpassed⟩ := hscans.passed (Scanner.passed_ofText source)
    exact ⟨hstop, hpassed.last_token hcalls hstop⟩
  · intro t ht
    exact ⟨hscans.kind_ne_eof t ht, (hwithin t ht).2.1⟩
  · rw [List.pairwise_append]
    refine ⟨hordered, List.pairwise_singleton _ _, ?_⟩
    intro t ht u hu
    obtain rfl := List.mem_singleton.mp hu
    have hlast := hcalls.offset_le
    have ht := hwithin t ht
    omega
  · intro t ht
    obtain ⟨earlier, later, heq⟩ := List.append_of_mem ht
    rw [heq] at h
    obtain ⟨before, s, s₁, -, hcalls, hpassed, -⟩ := passed_of_tokenize h
    exact hpassed.spans_token hcalls
  · intro earlier t later heq
    rw [heq] at h
    obtain ⟨before, s, s₁, -, hcalls, hpassed, hend⟩ := passed_of_tokenize h
    refine ⟨String.ofList s.gap, hend ▸ hpassed.spans_gap hcalls, ?_⟩
    rw [String.toList_ofList]
    exact hcalls.gap
  · intro t ht
    obtain ⟨earlier, later, heq⟩ := List.append_of_mem ht
    rw [heq, List.append_assoc, List.cons_append] at h
    obtain ⟨before, s, s₁, -, hcalls, -, -⟩ := passed_of_tokenize h
    exact hcalls.alone (hscans.kind_ne_eof t ht)
  · rw [(hcalls.kind_eq_eof_iff.mp hstop).1]
    obtain ⟨u, hu, htokens⟩ := Scanner.tokens_of_scans (.none (s := .ofText "")) rfl
    exact ⟨u, htokens, hu⟩

end TabularQuery
