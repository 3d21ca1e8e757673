import TabularQuery.Proofs.Printing

/-!
Texts that are put together. Where no comment is left open at the end of a text, its tokens are read from it in the same
way when it stands between others, if a space, a comma or a closing parenthesis follows: no token goes on with one of
those. Only the places of the tokens are then other ones.
-/

namespace TabularQuery

/-! ### Closed gaps -/

section Gaps

variable {cs r : List Char}

theorem GapFree.append {c : Char} (h : GapFree c cs) (hr : Ends r) : GapFree c (cs ++ r) := by
  have hhead : ∀ x ∉ [' ', ')', ','], cs.head? ≠ some x → (cs ++ r).head? ≠ some x := by
    intro x hx hcs
    cases cs with
    | nil => exact fun hhead => hx (hr x hhead)
    | cons d cs => exact hcs
  exact ⟨h.blank, fun hc => hhead _ (by decide) (h.minus hc), fun hc => hhead _ (by decide) (h.slash hc)⟩

/-- A gap that a token follows is the same when there is more after the token. -/
theorem splitGap_append {mode : GapMode} {c : Char} {rest : List Char} (h : (splitGap mode cs).rest = c :: rest)
    (hr : Ends r) : (splitGap mode (cs ++ r)).rest = c :: (rest ++ r) := by
  have hfree : GapFree c (rest ++ r) := (gapFree_of_splitGap h).append hr
  fun_induction splitGap mode cs with
  | case1 => cases h
  | case2 cs ih | case3 cs ih | case7 cs ih => exact ih h
  | case4 d cs hminus hslash hd ih =>
    have hblank : Gap False [d] := .blank hd .none
    rw [List.cons_append, ← List.singleton_append, hblank.rest_splitGap]
    exact ih h
  | case5 d cs hminus hslash hd =>
    cases h
    exact splitGap_rest hfree.blank hfree.minus hfree.slash
  | case6 d cs ih =>
    rw [List.cons_append, splitGap]
    exact ih h
  | case8 d cs hnot ih =>
    rw [List.cons_append, splitGap]
    · exact ih h
    · -- the comment goes on in `cs`, since a token follows it there
      intro l hd hslash
      cases cs with
      | nil => cases h
      | cons e cs =>
        cases hslash
        exact hnot cs hd rfl

end Gaps

/-! ### Tokens before more text -/

section Tokens

variable {c : Char} {cs r : List Char} {k : TokenKind} {s : Split}

/-- The split of a text that goes on. -/
def Split.before (s : Split) (r : List Char) : Split := ⟨s.taken, s.rest ++ r⟩

theorem splitWhile_before {p : Char → Bool} (cs : List Char) (hr : ∀ x ∈ r.head?, p x = false) :
    splitWhile p (cs ++ r) = (splitWhile p cs).before r := by
  induction cs with
  | nil => exact splitWhile_append (l := []) nofun hr
  | cons c cs ih =>
    simp only [splitWhile, Split.before, Split.mk.injEq] at ih ⊢
    by_cases hc : p c = true
    · simp [hc, ih]
    · simp [hc]

/-- What a text starts with, and what can end one does not, is not missing without the end. -/
theorem Ends.cons_of_append {l : List Char} (hr : Ends r) (h : cs ++ r = c :: l) (hc : c ∉ [' ', ')', ',']) :
    ∃ l', cs = c :: l' := by
  cases cs with
  | nil =>
    cases (h : r = c :: l)
    exact absurd (hr c rfl) hc
  | cons d cs =>
    cases h
    exact ⟨cs, rfl⟩

theorem splitBracket_before (h : splitBracket cs = some s) (r : List Char) :
    splitBracket (cs ++ r) = some (s.before r) := by
  induction cs generalizing s with
  | nil => cases h
  | cons c cs ih =>
    rw [splitBracket] at h
    rw [List.cons_append, splitBracket]
    split at h
    · next hc =>
      cases h
      rw [if_pos hc]
      rfl
    · next hc =>
      obtain ⟨s, hs, rfl⟩ := Option.map_eq_some_iff.mp h
      rw [if_neg hc, ih hs]
      rfl

theorem splitQuote_before (h : splitQuote cs = some s) (hr : Ends r) :
    splitQuote (cs ++ r) = some (s.before r) := by
  fun_induction splitQuote cs generalizing s with
  | case1 cs ih =>
    obtain ⟨s, hs, rfl⟩ := Option.map_eq_some_iff.mp h
    simp [splitQuote, ih hs, Split.push, Split.before]
  | case2 cs hnot =>
    cases h
    have hnot' : ∀ l, cs ++ r ≠ '\'' :: l := by
      intro l hquote
      obtain ⟨l', rfl⟩ := hr.cons_of_append hquote (by decide)
      exact hnot l' rfl
    rw [List.cons_append, splitQuote]
    · rfl
    · exact hnot'
  | case3 c cs hnot hnot' ih =>
    obtain ⟨s, hs, rfl⟩ := Option.map_eq_some_iff.mp h
    have hc : c ≠ '\'' := by
      rintro rfl
      exact hnot' rfl
    simp [splitQuote, hc, ih hs, Split.push, Split.before]
  | case4 => cases h

theorem operator?_before (h : operator? c cs = some (k, s)) (hr : Ends r) :
    operator? c (cs ++ r) = some (k, s.before r) := by
  unfold operator? at h
  split at h
  case h_6 h₁ h₂ h₃ h₄ h₅ =>
    obtain ⟨k', hk, heq⟩ := Option.map_eq_some_iff.mp h
    cases heq
    -- the second character of an operator is not among those that end a text
    have hother : ∀ x ∉ [' ', ')', ','], (∀ l, cs ≠ x :: l) → ∀ l, cs ++ r ≠ x :: l := by
      intro x hx hcs l hl
      obtain ⟨l', hl'⟩ := hr.cons_of_append hl hx
      exact hcs l' hl'
    rw [operator?]
    · rw [hk]
      rfl
    · exact fun l hc => hother '=' (by decide) (fun l => h₁ l hc) l
    · exact fun l hc => hother '=' (by decide) (fun l => h₂ l hc) l
    · exact fun l hc => hother '>' (by decide) (fun l => h₃ l hc) l
    · exact fun l hc => hother '=' (by decide) (fun l => h₄ l hc) l
    · exact fun l hc => hother '=' (by decide) (fun l => h₅ l hc) l
  all_goals
    cases h
    rfl

theorem Ends.notDigit (hr : Ends r) : ∀ c ∈ r.head?, c.isDigit = false := by
  intro c hc
  have hword := hr.notWord c hc
  simp only [isWordChar, Char.isAlphanum, Bool.or_eq_false_iff] at hword
  exact hword.1.2

theorem splitNumber_before (cs : List Char) (hr : Ends r) :
    splitNumber (cs ++ r) = ((splitNumber cs).1, (splitNumber cs).2.before r) := by
  simp only [splitNumber, splitWhile_before cs hr.notDigit, Split.before]
  generalize splitWhile Char.isDigit cs = whole
  split
  · next d rest hpoint =>
    obtain ⟨l, hl⟩ := hr.cons_of_append hpoint (by decide)
    rw [hl, List.cons_append, List.cons.injEq] at hpoint
    cases l with
    | nil =>
      -- after the point comes what follows the text, which is no digit
      rw [List.nil_append] at hpoint
      have hd : d.isDigit = false := hr.notDigit d (by rw [hpoint.2]; rfl)
      simp [hl, hd]
    | cons e l =>
      obtain ⟨-, hde⟩ := hpoint
      cases hde
      by_cases hd : d.isDigit
      · have hfraction := splitWhile_before (d :: l) hr.notDigit
        rw [List.cons_append] at hfraction
        simp [hl, hd, hfraction, Split.before]
      · simp [hl, hd]
  · next hpoint =>
    have hshort : ∀ d l, whole.rest ≠ '.' :: d :: l := by
      intro d l hl
      exact hpoint d (l ++ r) (by rw [hl]; rfl)
    split
    · next d l hl => exact absurd hl (hshort d l)
    · rfl

/-- A token does not go on with what can end a text. -/
theorem splitToken_before (h : splitToken c cs = .ok (k, s)) (hr : Ends r) :
    splitToken c (cs ++ r) = .ok (k, s.before r) := by
  unfold splitToken at h ⊢
  split at h
  · next hdigit =>
    have hnumber := splitNumber_before (c :: cs) hr
    rw [Except.ok.inj h] at hnumber
    rw [if_pos hdigit, ← List.cons_append, hnumber]
  next hdigit =>
  rw [if_neg hdigit]
  split at h
  · next hword =>
    cases h
    rw [if_pos hword, ← List.cons_append, splitWhile_before (c :: cs) hr.notWord]
    rfl
  next hword =>
  rw [if_neg hword]
  split at h
  · next hbracket =>
    split at h
    · next t ht =>
      cases h
      rw [if_pos hbracket, splitBracket_before ht]
      rfl
    · cases h
  next hbracket =>
  rw [if_neg hbracket]
  split at h
  · next hquote =>
    split at h
    · next t ht =>
      cases h
      rw [if_pos hquote, splitQuote_before ht hr]
      rfl
    · cases h
  next hquote =>
  rw [if_neg hquote]
  split at h
  · next token htoken =>
    cases h
    rw [operator?_before htoken hr]
  · cases h

end Tokens

/-! ### Texts between others -/

/-- Tokens of the same kinds and texts, in places that may differ. -/
def SameSpelling (u v : List Token) : Prop := List.Forall₂ (fun t t' => t'.kind = t.kind ∧ t'.text = t.text) u v

/-- Up to a closed gap, tokens are read from a text before `r` as they are without it. -/
theorem Scanner.Scans.spells {s s₁ : Scanner} {u : List Token} {r : List Char} (h : Scans s u s₁)
    (hclosed : Gap False s₁.rest) (hr : Ends r) : Spells s.rest (SameSpelling u) r := by
  induction h with
  | @none s =>
    intro s' g hg hs
    exact ⟨[], s', g ++ s.rest, .none, hg.append hclosed, by rw [hs, List.append_assoc], .nil⟩
  | @more s s₁ s₂ t u next notLast _ ih =>
    intro s' g hg hs
    cases calls_of_next next with
    | stop => exact absurd rfl notLast
    | @token c cs kind split hrest hsplit =>
      have hgap : (splitGap .blank s'.rest).rest = c :: (cs ++ r) := by
        rw [hs, hg.rest_splitGap, splitGap_append hrest hr]
      obtain ⟨t', s₁', hnext, hkind, htext, hrest'⟩ := next_of_splitToken hgap (splitToken_before hsplit hr)
      obtain ⟨v, s₂', g', hscans, hg', hrest₂, hv⟩ := ih hclosed s₁' [] .none hrest'
      exact ⟨t' :: v, s₂', g', .more hnext (hkind ▸ notLast) hscans, hg', hrest₂, .cons ⟨hkind, htext⟩ hv⟩

/-! ### Phrases in other places -/

section Places

open Grammar
open TokenReader (Level)

variable {α : Type} {P : List Token → α → Prop} {t : Token} {u v w : List Token}

namespace SameSpelling

theorem append (h : SameSpelling (u ++ v) w) : ∃ u' v', w = u' ++ v' ∧ SameSpelling u u' ∧ SameSpelling v v' := by
  induction u generalizing w with
  | nil => exact ⟨[], w, rfl, .nil, h⟩
  | cons t u ih =>
    cases h with
    | cons ht h =>
      obtain ⟨u', v', rfl, hu, hv⟩ := ih h
      exact ⟨_, v', rfl, .cons ht hu, hv⟩

theorem cons (h : SameSpelling (t :: u) w) : ∃ t' u', w = t' :: u' ∧ t'.kind = t.kind ∧ SameSpelling u u' := by
  cases h with
  | cons ht h => exact ⟨_, _, rfl, ht.1, h⟩

theorem enclosed {t' : Token} (h : SameSpelling (t :: (u ++ [t'])) w) : ∃ (s : Token) (u' : List Token) (s' : Token),
    w = s :: (u' ++ [s']) ∧ s.kind = t.kind ∧ SameSpelling u u' ∧ s'.kind = t'.kind := by
  obtain ⟨s, v, rfl, hs, hv⟩ := h.cons
  obtain ⟨u', v', rfl, hu, hv'⟩ := hv.append
  obtain ⟨s', v'', rfl, hs', hnone⟩ := hv'.cons
  cases hnone
  exact ⟨s, u', s', rfl, hs, hu, hs'⟩

theorem name {name : String} (h : SameSpelling u w) (phrase : NamePhrase u name) : NamePhrase w name := by
  cases phrase with
  | mk identifier =>
    cases h with
    | cons ht h =>
      cases h
      rw [← ht.2]
      exact .mk (ht.1.trans identifier)

theorem qualifier {qualifier : Option String} (h : SameSpelling u w) (phrase : QualifierPhrase u qualifier) :
    QualifierPhrase w qualifier := by
  cases phrase with
  | none =>
    cases h
    exact .none
  | some isName isDot =>
    obtain ⟨u', v', rfl, hu, hv⟩ := h.append
    obtain ⟨dot, v', rfl, hdot, hv⟩ := hv.cons
    cases hv
    exact .some (hu.name isName) (hdot.trans isDot)

theorem literal {x : Value} (h : SameSpelling u w) (phrase : LiteralPhrase u x) : LiteralPhrase w x := by
  cases phrase with
  | integer count =>
    cases count with
    | mk integer value =>
      cases h with
      | cons ht h =>
        cases h
        exact .integer (.mk (ht.1.trans integer) (ht.2 ▸ value))
  | real kind | text kind =>
    cases h with
    | cons ht h =>
      cases h
      rw [← ht.2]
      constructor
      exact ht.1.trans kind
  | true kind | false kind =>
    cases h with
    | cons ht h =>
      cases h
      constructor
      exact ht.1.trans kind

theorem commaList {as : List α} (h : SameSpelling u w) (list : CommaList P u as)
    (hP : ∀ u' w' a, u'.length ≤ u.length → SameSpelling u' w' → P u' a → P w' a) : CommaList P w as := by
  induction list generalizing w with
  | one phrase => exact .one (hP _ _ _ (Nat.le_refl _) h phrase)
  | more phrase comma rest ih =>
    obtain ⟨u', v', rfl, hu, hv⟩ := h.append
    obtain ⟨t', v', rfl, ht, hv⟩ := hv.cons
    simp only [List.length_append, List.length_cons] at hP
    exact .more (hP _ _ _ (by omega) hu phrase) (ht.trans comma) (ih hv fun u' w' a hle => hP u' w' a (by omega))

theorem arguments {as : List α} (h : SameSpelling u w) (args : Arguments P u as)
    (hP : ∀ u' w' a, u'.length ≤ u.length → SameSpelling u' w' → P u' a → P w' a) : Arguments P w as := by
  cases args with
  | none =>
    cases h
    exact .none
  | some list => exact .some (h.commaList list hP)

/-- Which expression a phrase stands for does not hang on the places of its tokens. -/
theorem expr {ℓ : Level} {e : Expr} (h : SameSpelling u w) (phrase : ExprPhrase ℓ u e) : ExprPhrase ℓ w e := by
  induction phrase using ExprPhrase.length_induction generalizing w with
  | @step ℓ u e phrase ih htighter =>
    have hpart : ∀ {ℓ' : Level} {u' w' : List Token} {e' : Expr}, u'.length < u.length → SameSpelling u' w' →
        ExprPhrase ℓ' u' e' → ExprPhrase ℓ' w' e' := fun hlt h' phrase' => ih hlt phrase' h'
    cases phrase with
    | tighter next phrase => exact .tighter next (htighter next phrase h)
    | binary level several next left spelled right =>
      obtain ⟨u₁, u₂, rfl, hleft, hu₂⟩ := h.append
      obtain ⟨t, u₃, rfl, ht, hright⟩ := hu₂.cons
      exact .binary level several next (hpart (by simp) hleft left) (ht ▸ spelled) (hpart (by simp; omega) hright right)
    | not keyword operand =>
      obtain ⟨t, u₁, rfl, ht, hu₁⟩ := h.cons
      exact .not (ht.trans keyword) (hpart (by simp) hu₁ operand)
    | compare level left spelled right =>
      obtain ⟨u₁, u₂, rfl, hleft, hu₂⟩ := h.append
      obtain ⟨t, u₃, rfl, ht, hright⟩ := hu₂.cons
      exact .compare level (hpart (by simp) hleft left) (ht ▸ spelled) (hpart (by simp; omega) hright right)
    | notLike left isNot isLike right =>
      obtain ⟨u₁, u₂, rfl, hleft, hu₂⟩ := h.append
      obtain ⟨not, u₃, rfl, hnot, hu₃⟩ := hu₂.cons
      obtain ⟨like, u₄, rfl, hlike, hright⟩ := hu₃.cons
      exact .notLike (hpart (by simp) hleft left) (hnot.trans isNot) (hlike.trans isLike)
        (hpart (by simp; omega) hright right)
    | inList left isIn opens list closes =>
      obtain ⟨u₁, u₂, rfl, hleft, hu₂⟩ := h.append
      obtain ⟨t, u₃, rfl, ht, hu₃⟩ := hu₂.cons
      obtain ⟨lparen, u₄, rparen, rfl, hl, hlist, hr⟩ := hu₃.enclosed
      exact .inList (hpart (by simp) hleft left) (ht.trans isIn) (hl.trans opens)
        (hlist.commaList list fun _ _ _ hle => hpart (by simp; omega)) (hr.trans closes)
    | notIn left isNot isIn opens list closes =>
      obtain ⟨u₁, u₂, rfl, hleft, hu₂⟩ := h.append
      obtain ⟨not, u₃, rfl, hnot, hu₃⟩ := hu₂.cons
      obtain ⟨t, u₄, rfl, ht, hu₄⟩ := hu₃.cons
      obtain ⟨lparen, u₅, rparen, rfl, hl, hlist, hr⟩ := hu₄.enclosed
      exact .notIn (hpart (by simp) hleft left) (hnot.trans isNot) (ht.trans isIn) (hl.trans opens)
        (hlist.commaList list fun _ _ _ hle => hpart (by simp; omega)) (hr.trans closes)
    | minus isMinus operand =>
      obtain ⟨t, u₁, rfl, ht, hu₁⟩ := h.cons
      exact .minus (ht.trans isMinus) (hpart (by simp) hu₁ operand)
    | plus isPlus operand =>
      obtain ⟨t, u₁, rfl, ht, hu₁⟩ := h.cons
      exact .plus (ht.trans isPlus) (hpart (by simp) hu₁ operand)
    | literal phrase => exact .literal (h.literal phrase)
    | column before isName =>
      obtain ⟨u₁, u₂, rfl, hbefore, hname⟩ := h.append
      exact .column (hbefore.qualifier before) (hname.name isName)
    | call before isName opens arguments closes =>
      obtain ⟨u₁, u₂, rfl, hbefore, hu₂⟩ := h.append
      obtain ⟨u₃, u₄, rfl, hname, hu₄⟩ := hu₂.append
      obtain ⟨lparen, u₅, rparen, rfl, hl, hargs, hr⟩ := hu₄.enclosed
      exact .call (hbefore.qualifier before) (hname.name isName) (hl.trans opens)
        (hargs.arguments arguments fun _ _ _ hle => hpart (by simp; omega)) (hr.trans closes)
    | parens opens inner closes =>
      obtain ⟨lparen, u₁, rparen, rfl, hl, hinner, hr⟩ := h.enclosed
      exact .parens (hl.trans opens) (hpart (by rw [List.length_cons, List.length_append]; omega) hinner inner)
        (hr.trans closes)

theorem argument {x : Value} (h : SameSpelling u w) (phrase : ArgumentPhrase u x) : ArgumentPhrase w x := by
  cases phrase with
  | literal phrase => exact .literal (h.literal phrase)
  | negInteger minus integer value =>
    obtain _ | ⟨hminus, _ | ⟨ht, ⟨⟩⟩⟩ := h
    exact .negInteger (hminus.1.trans minus) (ht.1.trans integer) (ht.2 ▸ value)
  | negReal minus real =>
    obtain _ | ⟨hminus, _ | ⟨ht, ⟨⟩⟩⟩ := h
    rw [← ht.2]
    exact .negReal (hminus.1.trans minus) (ht.1.trans real)

theorem source {x : FromSource} (h : SameSpelling u w) (phrase : SourcePhrase u x) : SourcePhrase w x := by
  have halias : ∀ {v v' : List Token} {a : Option String}, SameSpelling v v' → AliasPhrase v a → AliasPhrase v' a := by
    intro v v' a hv phrase
    cases phrase with
    | none =>
      cases hv
      exact .none
    | bare isName => exact .bare (hv.name isName)
    | as keyword isName =>
      obtain ⟨t, v, rfl, ht, hv⟩ := hv.cons
      exact .as (ht.trans keyword) (hv.name isName)
  cases phrase with
  | named isName hasAlias =>
    obtain ⟨u', v', rfl, hu, hv⟩ := h.append
    exact .named (hu.name isName) (halias hv hasAlias)
  | schema isCall hasAlias =>
    obtain ⟨u', v', rfl, hu, hv⟩ := h.append
    refine .schema ?_ (halias hv hasAlias)
    cases isCall with
    | mk isHash schemaName isDot methodName opens arguments closes =>
      obtain ⟨hash, u₁, rfl, hhash, hu₁⟩ := hu.cons
      obtain ⟨u₂, u₃, rfl, hschema, hu₃⟩ := hu₁.append
      obtain ⟨dot, u₄, rfl, hdot, hu₄⟩ := hu₃.cons
      obtain ⟨u₅, u₆, rfl, hmethod, hu₆⟩ := hu₄.append
      obtain ⟨lparen, u₇, rparen, rfl, hl, hargs, hr⟩ := hu₆.enclosed
      exact .mk (hhash.trans isHash) (hschema.name schemaName) (hdot.trans isDot) (hmethod.name methodName) (hl.trans opens)
        (hargs.arguments arguments fun _ _ _ _ => argument) (hr.trans closes)

theorem sources {x : FromSource} (h : SameSpelling u w) (phrase : FromPhrase u x) : FromPhrase w x := by
  induction phrase generalizing w with
  | source phrase => exact .source (h.source phrase)
  | join _ join right isOn condition ih =>
    obtain ⟨u₁, u₂, rfl, hleft, hu₂⟩ := h.append
    obtain ⟨words, u₃, rfl, hwords, hu₃⟩ := hu₂.append
    obtain ⟨u₄, u₅, rfl, hright, hu₅⟩ := hu₃.append
    obtain ⟨on, u₆, rfl, hon, hcondition⟩ := hu₅.cons
    refine .join (ih hleft) ?_ (hright.source right) (hon.trans isOn) (hcondition.expr condition)
    cases join with
    | join isJoin =>
      obtain _ | ⟨ht, ⟨⟩⟩ := hwords
      exact .join (ht.1.trans isJoin)
    | inner isInner isJoin =>
      obtain _ | ⟨ht, _ | ⟨ht', ⟨⟩⟩⟩ := hwords
      exact .inner (ht.1.trans isInner) (ht'.1.trans isJoin)

end SameSpelling

end Places

/-! ### Texts of statements -/

section Statements

open Grammar

variable {text : String} {xs : List Statement}

theorem Spells.parse (h : Spells text.toList (RootPhrase · xs) []) : TabularQuery.parse text = .ok xs := by
  obtain ⟨u, stop, htokens, hstop, hu⟩ := h.tokenize
  obtain ⟨u', stop', s, heq, -, hscans, -⟩ := Scanner.scans_of_tokens htokens
  obtain ⟨rfl, -⟩ := List.append_inj' heq rfl
  rw [TabularQuery.parse, htokens]
  exact (parseTokens_eq_ok_iff hscans.kind_ne_eof hstop [] xs).mpr hu

theorem scans_of_parse (h : parse text = .ok xs) : ∃ u s, Scanner.Scans (.ofText text) u s ∧ RootPhrase u xs := by
  obtain ⟨toks, htokens, h⟩ := except_bind_eq_ok.mp h
  obtain ⟨u, stop, s, rfl, hstop, hscans, -⟩ := Scanner.scans_of_tokens htokens
  exact ⟨u, s, hscans, (parseTokens_eq_ok_iff hscans.kind_ne_eof hstop [] xs).mp h⟩

end Statements

/-! ### Texts of expressions -/

section Expressions

open Grammar
open TokenReader (Level)

variable {ℓ : Level} {text : String} {e : Expr} {u : List Token} {stop : Token} {r : List Char}

/-- Reads an expression of the level, after which the end must come. -/
def TokenReader.wholeAt (ℓ : Level) : TokenReader Expr := do
  let e ← exprAt (8 * (← get).fuel) ℓ
  expect .eof
  return e

/-- The expression that the whole of a text is read as. -/
def readExpr? (ℓ : Level) (text : String) : Option Expr := do
  let toks ← (tokenize text).toOption
  let start ← TokenStream.ofTokens? toks
  (TokenReader.wholeAt ℓ).run' start

theorem TokenReader.wholeAt_eq_ok_iff {s : TokenStream} :
    (∃ s₁, wholeAt ℓ s = .ok e s₁) ↔ ∃ s₁, exprAt (8 * s.fuel) ℓ s = .ok e s₁ ∧ s₁.kind = .eof := by
  have hwhole : wholeAt ℓ s = (exprAt (8 * s.fuel) ℓ >>= fun e => expect .eof >>= fun _ => pure e) s := rfl
  rw [hwhole]
  cases hread : exprAt (8 * s.fuel) ℓ s with
  | error error s₁ => simp [hread]
  | ok e' s₁ =>
    by_cases hend : s₁.kind = .eof
    · simp [hread, expect, accept, advance, hend]
    · simp [hread, expect, accept, fail, hend]

theorem readExpr?_eq_some_iff (htokens : tokenize text = .ok (u ++ [stop])) :
    readExpr? ℓ text = some e ↔ ExprPhrase ℓ u e := by
  obtain ⟨u', stop', s, hu, hstop, hscans, -⟩ := Scanner.scans_of_tokens htokens
  obtain ⟨rfl, hlast⟩ := List.append_inj' hu rfl
  obtain rfl := List.cons.inj hlast |>.1
  let n := 8 * (TokenStream.showing stop [] u).fuel
  have hn : 8 * (u.length + 1) ≤ n := Nat.mul_le_mul_left 8 (TokenStream.length_lt_fuel [] u)
  have hread : readExpr? ℓ text = some e ↔
      ∃ s₁, TokenReader.exprAt n ℓ (.showing stop [] u) = .ok e s₁ ∧ s₁.kind = .eof := by
    simp only [readExpr?, htokens, Except.toOption, Option.bind_eq_bind, Option.bind_some,
      TokenStream.ofTokens?_append, run'_eq_some_iff, TokenReader.wholeAt_eq_ok_iff]
    rfl
  rw [hread]
  constructor
  · rintro ⟨s₁, hok, hend⟩
    have hreads : TokenReader.Reads (TokenReader.exprAt n ℓ) (TokenReader.exprAt n ℓ) (ExprPhrase ℓ) u :=
      TokenReader.reads_exprAt (by omega) (by omega)
    obtain ⟨e', u', v, hu, hphrase, hok', -⟩ | ⟨error, v, -, herror, -⟩ := hreads stop [] [] hstop
    · rw [hok] at hok'
      obtain ⟨rfl, rfl⟩ := EStateM.Result.ok.inj hok'
      rw [TokenStream.kind_showing [] hstop] at hend
      cases v with
      | nil => rwa [hu, List.append_nil]
      | cons t v => exact absurd hend (hscans.kind_ne_eof t (by simp [hu]))
    · rw [hok] at herror
      cases herror
  · intro phrase
    have heof : headKind [] ∈ ℓ.follow := by cases ℓ <;> decide
    have haccepts := TokenReader.accepts_exprAt (n := n) (m := u.length) (ℓ := ℓ) (by omega) u e [] (Nat.le_refl _)
      phrase heof stop [] hstop
    rw [List.append_nil] at haccepts
    exact ⟨_, haccepts, hstop⟩

/-- Blanks and closed comments are all that stands after the last token of the text. -/
def ClosedText (text : String) : Prop :=
  ∃ u s, Scanner.Scans (.ofText text) u s ∧ Gap False s.rest

/-- Is the end of the text that of its last token? -/
def endsWithToken (text : String) : Bool :=
  (tokenize text).toOption.map (fun toks => endOf toks.dropLast) = some text.utf8ByteSize

theorem closedText_of_endsWithToken (h : endsWithToken text) : ClosedText text := by
  obtain ⟨toks, htoks, hend⟩ := Option.map_eq_some_iff.mp (of_decide_eq_true h)
  obtain ⟨body, stop, s, rfl, -, hscans, -⟩ := Scanner.scans_of_tokens (toOption_eq_some_iff.mp htoks)
  rw [List.dropLast_concat] at hend
  obtain ⟨before, hpassed⟩ := hscans.passed (Scanner.passed_ofText text)
  have hoffset : s.offset = endOf body := hscans.offset_eq
  have hsize := hpassed.size
  have hnone : s.rest = [] := by
    by_contra hrest
    have hpos := Scanner.bytes_pos hrest
    omega
  exact ⟨body, s, hscans, hnone ▸ .none⟩

/-- The text is read as the expression, and no comment is left open at its end. -/
structure StandsFor (ℓ : Level) (text : String) (e : Expr) : Prop where
  reads : readExpr? ℓ text = some e
  closed : ClosedText text

theorem exists_standsFor {α : Type} {f : Expr → α} {a : α}
    (h : (readExpr? ℓ text).map f = some a ∧ endsWithToken text) : ∃ e, StandsFor ℓ text e ∧ f e = a := by
  obtain ⟨e, he, ha⟩ := Option.map_eq_some_iff.mp h.1
  exact ⟨e, ⟨he, closedText_of_endsWithToken h.2⟩, ha⟩

theorem StandsFor.spells (h : StandsFor ℓ text e) (hr : Ends r) : Spells text.toList (fun u => ExprPhrase ℓ u e) r := by
  obtain ⟨u, s, hscans, hclosed⟩ := h.closed
  have hgap : (splitGap .blank s.rest).rest = [] := by simpa [splitGap] using hclosed.rest_splitGap []
  obtain ⟨stop, -, htokens⟩ := Scanner.tokens_of_scans hscans hgap
  have hphrase : ExprPhrase ℓ u e := (readExpr?_eq_some_iff htokens).mp h.reads
  exact (hscans.spells hclosed hr).mono fun v hv => hv.expr hphrase

theorem Spells.standsFor (h : Spells text.toList (fun u => ExprPhrase ℓ u e) []) : StandsFor ℓ text e := by
  obtain ⟨u, stop, htokens, -, hphrase⟩ := h.tokenize
  obtain ⟨v, s, g, hscans, hg, hrest, -⟩ := h (.ofText text) [] .none (by simp [Scanner.ofText])
  rw [List.append_nil] at hrest
  exact ⟨(readExpr?_eq_some_iff htokens).mpr hphrase, v, s, hscans, hrest ▸ hg⟩

end Expressions

end TabularQuery
