import TabularQuery.Token.Scanner
import TabularQuery.Text.Quoted

/-!
Reading tokens off text, one after another. A lexeme is a row of characters that is read as one token before what
follows it, and `Scanner.Scans` goes from one token to the next.
-/

namespace TabularQuery

namespace Scanner

variable {s s₁ s₂ : Scanner} {t : Token} {u v toks : List Token}

/-- Tokens that are read one after another, none of them the end. -/
inductive Scans : Scanner → List Token → Scanner → Prop
  | none {s : Scanner} : Scans s [] s
  | more {s s₁ s₂ : Scanner} {t : Token} {u : List Token} (next : s.next = (.ok t, s₁)) (notLast : t.kind ≠ .eof)
      (rest : Scans s₁ u s₂) : Scans s (t :: u) s₂

theorem Scans.append (h : Scans s u s₁) (h' : Scans s₁ v s₂) : Scans s (u ++ v) s₂ := by
  induction h with
  | none => exact h'
  | more next notLast _ ih => exact .more next notLast (ih h')

theorem tokens_more (h : s.next = (.ok t, s₁)) (notLast : t.kind ≠ .eof) : s.tokens = (t :: ·) <$> s₁.tokens := by
  rw [tokens]
  split
  · next h' => rw [h] at h'; cases h'
  · next h' =>
    rw [h] at h'
    cases h'
    rw [dif_neg notLast]

theorem tokens_last (h : s.next = (.ok t, s₁)) (last : t.kind = .eof) : s.tokens = .ok [t] := by
  rw [tokens]
  split
  · next h' => rw [h] at h'; cases h'
  · next h' =>
    rw [h] at h'
    cases h'
    rw [dif_pos last]

theorem next_of_gap (hrest : (splitGap .blank s.rest).rest = []) :
    ∃ stop s₁, s.next = (.ok stop, s₁) ∧ stop.kind = .eof := by
  have hgap : s.skipGap.rest = [] := hrest
  simp only [next, hgap]
  exact ⟨_, _, rfl, rfl⟩

/-- Tokens up to where nothing but a gap is left are all the tokens but the last one. -/
theorem tokens_of_scans (h : Scans s u s₁) (hrest : (splitGap .blank s₁.rest).rest = []) :
    ∃ stop : Token, stop.kind = .eof ∧ s.tokens = .ok (u ++ [stop]) := by
  induction h with
  | none =>
    obtain ⟨stop, s₂, hnext, hstop⟩ := next_of_gap hrest
    exact ⟨stop, hstop, tokens_last hnext hstop⟩
  | more next notLast _ ih =>
    obtain ⟨stop, hstop, htokens⟩ := ih hrest
    refine ⟨stop, hstop, ?_⟩
    rw [tokens_more next notLast, htokens]
    rfl

theorem scans_of_tokens (h : s.tokens = .ok toks) :
    ∃ u stop s₁, toks = u ++ [stop] ∧ stop.kind = .eof ∧ Scans s u s₁ ∧ ∃ s₂, s₁.next = (.ok stop, s₂) := by
  fun_induction tokens s generalizing toks with
  | case1 s e s₁ hnext => cases h
  | case2 s t s₁ hnext last =>
    cases h
    exact ⟨[], t, s, rfl, last, .none, s₁, hnext⟩
  | case3 s t s₁ hnext notLast hlt ih =>
    cases htokens : s₁.tokens with
    | error e =>
      rw [htokens] at h
      cases h
    | ok toks' =>
      rw [htokens] at h
      cases h
      obtain ⟨u, stop, s₂, rfl, hstop, hscans, hlast⟩ := ih htokens
      exact ⟨t :: u, stop, s₂, rfl, hstop, .more hnext notLast hscans, hlast⟩

theorem scans_of_tokens_error {e : Error} (h : s.tokens = .error e) :
    ∃ u s₁ s₂, Scans s u s₁ ∧ s₁.next = (.error e, s₂) := by
  fun_induction tokens s with
  | case1 s e' s₁ hnext =>
    cases h
    exact ⟨[], s, s₁, .none, hnext⟩
  | case2 s t s₁ hnext last => cases h
  | case3 s t s₁ hnext notLast hlt ih =>
    cases htokens : s₁.tokens with
    | ok toks =>
      rw [htokens] at h
      cases h
    | error e' =>
      rw [htokens] at h
      cases h
      obtain ⟨u, s₂, s₃, hscans, hfault⟩ := ih htokens
      exact ⟨t :: u, s₂, s₃, .more hnext notLast hscans, hfault⟩

theorem Scans.kind_ne_eof (h : Scans s u s₁) : ∀ t ∈ u, t.kind ≠ .eof := by
  induction h with
  | none => simp
  | more _ notLast _ ih => exact List.forall_mem_cons.mpr ⟨notLast, ih⟩

end Scanner

/-! ### Names -/

/-- A word that is no keyword. -/
structure IsName (name : String) : Prop where
  start : ∃ c cs, name.toList = c :: cs ∧ isWordStart c
  chars : ∀ c ∈ name.toList, isWordChar c
  kind : TokenKind.ofWord name = .identifier

theorem operator?_kind {c : Char} {cs : List Char} {k : TokenKind} {split : Split}
    (h : operator? c cs = some (k, split)) : k ≠ .identifier ∧ k ≠ .text ∧ k ≠ .eof := by
  unfold operator? at h
  split at h
  case h_6 =>
    obtain ⟨k', hk, heq⟩ := Option.map_eq_some_iff.mp h
    cases heq
    unfold operator?.single? at hk
    split at hk <;> cases hk <;> decide
  all_goals
    cases h
    decide

theorem isName_of_splitToken {c : Char} {cs : List Char} {split : Split}
    (h : splitToken c cs = .ok (.identifier, split)) (hbracket : c ≠ '[') : IsName (String.ofList split.taken) := by
  unfold splitToken at h
  split at h
  · unfold splitNumber at h
    simp only at h
    split at h
    · split at h <;> cases h
    · cases h
  split at h
  · next hstart =>
    simp only [Except.ok.injEq, Prod.mk.injEq] at h
    obtain ⟨hkind, rfl⟩ := h
    refine ⟨⟨c, (splitWhile isWordChar cs).taken, ?_, hstart⟩, ?_, hkind⟩
    · simp [splitWhile, isWordChar_of_isWordStart hstart]
    · intro x hx
      simp only [splitWhile, String.toList_ofList] at hx
      exact List.all_eq_true.mp List.all_takeWhile x hx
  split at h
  · split at h <;> cases h
  split at h
  · next token htoken =>
    cases h
    exact absurd rfl (operator?_kind htoken).1
  · cases h

namespace Scanner

variable {s s₁ : Scanner} {t : Token} {u : List Token}

theorem isName_of_next (h : s.next = (.ok t, s₁)) (hkind : t.kind = .identifier)
    (hbracket : t.text.toList.head? ≠ some '[') : IsName t.text := by
  unfold next at h
  simp only at h
  split at h
  · cases h
    cases hkind
  · next c cs _ =>
    split at h
    · next kind split hsplit =>
      cases h
      obtain rfl : kind = .identifier := hkind
      obtain ⟨hwhole, hsome⟩ := splitToken_whole hsplit
      obtain ⟨x, xs, htaken⟩ := List.exists_cons_of_ne_nil hsome
      apply isName_of_splitToken hsplit
      intro hc
      simp only [Split.whole, htaken, List.cons_append, List.cons.injEq] at hwhole
      simp [htaken, hwhole.1, hc] at hbracket
    · cases h

theorem Scans.isName (h : Scans s u s₁) (ht : t ∈ u) (hkind : t.kind = .identifier)
    (hbracket : t.text.toList.head? ≠ some '[') : IsName t.text := by
  induction h with
  | none => cases ht
  | more next _ _ ih =>
    rcases List.mem_cons.mp ht with rfl | ht
    · exact isName_of_next next hkind hbracket
    · exact ih ht

end Scanner

/-! ### Lexemes -/

/-- Before `r`, and with nothing skipped, the characters are read as one token of the kind. -/
structure Lexeme (k : TokenKind) (l r : List Char) : Prop where
  gap : (splitGap .blank (l ++ r)).rest = l ++ r
  split : ∃ c cs, l ++ r = c :: cs ∧ splitToken c cs = .ok (k, ⟨l, r⟩)

section Lexemes

variable {c : Char} {l r : List Char}

theorem splitGap_rest (hblank : Text.isTokenBlank c = false) (hminus : c = '-' → r.head? ≠ some '-')
    (hslash : c = '/' → r.head? ≠ some '*') : (splitGap .blank (c :: r)).rest = c :: r := by
  cases r with
  | nil => simp [splitGap, hblank]
  | cons d r =>
    simp only [List.head?_cons, ne_eq, Option.some.injEq] at hminus hslash
    unfold splitGap
    split <;> simp_all

theorem isDigit_of_isWordStart (h : isWordStart c) : c.isDigit = false := by
  rw [Bool.eq_false_iff]
  intro hdigit
  unfold isWordStart at h
  delta Char.isAlpha Char.isUpper Char.isLower at h
  simp only [Char.isDigit, Bool.or_eq_true, Bool.and_eq_true, decide_eq_true_eq, UInt32.le_iff_toNat_le,
    ge_iff_le] at h hdigit
  rcases h with (h | h) | h
  · simp at h hdigit
    omega
  · simp at h hdigit
    omega
  · subst h
    simp at hdigit

theorem isTokenBlank_of_isWordChar (h : isWordChar c) : Text.isTokenBlank c = false := by
  rw [Bool.eq_false_iff]
  intro hblank
  simp only [Text.isTokenBlank, Bool.or_eq_true, decide_eq_true_eq] at hblank
  rcases hblank with (((rfl | rfl) | rfl) | rfl) | rfl <;> cases h

theorem lexeme_of_splitToken {k : TokenKind} (h : splitToken c (l ++ r) = .ok (k, ⟨c :: l, r⟩))
    (hblank : Text.isTokenBlank c = false) (hminus : c = '-' → (l ++ r).head? ≠ some '-')
    (hslash : c = '/' → (l ++ r).head? ≠ some '*') : Lexeme k (c :: l) r :=
  ⟨splitGap_rest hblank hminus hslash, c, l ++ r, rfl, h⟩

theorem splitWhile_append {p : Char → Bool} (hl : ∀ x ∈ l, p x) (hr : ∀ x ∈ r.head?, p x = false) :
    splitWhile p (l ++ r) = ⟨l, r⟩ := by
  have htake : r.takeWhile p = [] := by
    cases r with
    | nil => rfl
    | cons x r => simp [hr x rfl]
  have hdrop : r.dropWhile p = r := by
    cases r with
    | nil => rfl
    | cons x r => simp [hr x rfl]
  simp only [splitWhile, Split.mk.injEq]
  constructor
  · rw [List.takeWhile_append_of_pos hl, htake, List.append_nil]
  · rw [List.dropWhile_append_of_pos hl, hdrop]

theorem lexeme_word {name : String} (hstart : ∃ c cs, name.toList = c :: cs ∧ isWordStart c)
    (hchars : ∀ x ∈ name.toList, isWordChar x) (hr : ∀ x ∈ r.head?, isWordChar x = false) :
    Lexeme (.ofWord name) name.toList r := by
  obtain ⟨c, cs, hname, hc⟩ := hstart
  have htext : String.ofList (c :: cs) = name := by rw [← hname, String.ofList_toList]
  rw [hname] at hchars ⊢
  have hsplit : splitWhile isWordChar (c :: (cs ++ r)) = ⟨c :: cs, r⟩ := splitWhile_append hchars hr
  apply lexeme_of_splitToken
  · simp only [splitToken, isDigit_of_isWordStart hc, hc, hsplit, htext, if_true, Bool.false_eq_true, if_false]
  · exact isTokenBlank_of_isWordChar (isWordChar_of_isWordStart hc)
  · rintro rfl
    cases hc
  · rintro rfl
    cases hc

theorem ofWord_of_upper {word upper : String} {k : TokenKind} (hupper : word.toList.map Char.toUpper = upper.toList)
    (hk : TokenKind.keywords.lookup upper = some k) : TokenKind.ofWord word = k := by
  have hword : word.map Char.toUpper = upper := by
    apply String.toList_inj.mp
    rw [String.toList_map, hupper]
  rw [TokenKind.ofWord, hword, hk, Option.getD_some]

theorem lexeme_name {name : String} (h : IsName name) (hr : ∀ x ∈ r.head?, isWordChar x = false) :
    Lexeme .identifier name.toList r :=
  h.kind ▸ lexeme_word h.start h.chars hr

theorem lexeme_digits (hl : l ≠ []) (hdigits : ∀ x ∈ l, x.isDigit) (hr : ∀ x ∈ r.head?, x.isDigit = false ∧ x ≠ '.') :
    Lexeme .integer l r := by
  obtain ⟨c, l, rfl⟩ := List.exists_cons_of_ne_nil hl
  have hc : c.isDigit := hdigits c (by simp)
  have hsplit : splitWhile Char.isDigit (c :: (l ++ r)) = ⟨c :: l, r⟩ :=
    splitWhile_append hdigits fun x hx => (hr x hx).1
  apply lexeme_of_splitToken
  · simp only [splitToken, hc, if_true, splitNumber, hsplit]
    split
    · exact absurd rfl (hr '.' rfl).2
    · rfl
  · exact isTokenBlank_of_isWordChar (by simp [isWordChar, Char.isAlphanum, hc])
  · rintro rfl
    cases hc
  · rintro rfl
    cases hc

theorem splitQuote_doubleQuotes (cs : List Char) (hr : r.head? ≠ some '\'') :
    splitQuote (Text.doubleQuotes cs ++ '\'' :: r) = some ⟨Text.doubleQuotes cs ++ ['\''], r⟩ := by
  induction cs with
  | nil =>
    cases r with
    | nil => rfl
    | cons x r =>
      have hx : x ≠ '\'' := by simpa using hr
      simp [Text.doubleQuotes, splitQuote, hx]
  | cons c cs ih =>
    by_cases hc : c = '\''
    · subst hc
      simp [Text.doubleQuotes, splitQuote, ih, Split.push]
    · simp [Text.doubleQuotes, splitQuote, hc, ih, Split.push]

theorem lexeme_quoted (text : String) (hr : r.head? ≠ some '\'') : Lexeme .text (Text.quoted text).toList r := by
  have hquoted : (Text.quoted text).toList = '\'' :: (Text.doubleQuotes text.toList ++ ['\'']) := by
    simp [Text.quoted]
  rw [hquoted]
  apply lexeme_of_splitToken
  · have hsplit := splitQuote_doubleQuotes text.toList hr
    simp [splitToken, isWordStart, hsplit, Split.push]
  · decide
  · simp
  · simp

theorem lexeme_mark {k : TokenKind} (h : (k, c) ∈ [(.lparen, '('), (.rparen, ')'), (.comma, ','), (.dot, '.')]) :
    Lexeme k [c] r := by
  simp only [List.mem_cons, Prod.mk.injEq, List.not_mem_nil, or_false] at h
  rcases h with ⟨rfl, rfl⟩ | ⟨rfl, rfl⟩ | ⟨rfl, rfl⟩ | ⟨rfl, rfl⟩ <;>
    exact lexeme_of_splitToken rfl (by decide) nofun nofun

theorem lexeme_minus (hr : r.head? ≠ some '-') : Lexeme .minus ['-'] r :=
  lexeme_of_splitToken rfl (by decide) (fun _ => hr) nofun

end Lexemes

end TabularQuery
