import TabularQuery.Text.Blank
import TabularQuery.Token.Kind

/-!
Splitting the head off query text. Between tokens stand blanks and comments: `--` up to the end of
the line, and `/* … */`, which may also be left open. A token is a number, a word, a bracketed
identifier, a quoted text or an operator; each is taken as long as it can be. Nothing is lost
in a split, and a token is never empty.
-/

namespace TabularQuery

/-- A split of some text in two, the first part in order. -/
structure Split where
  taken : List Char
  rest : List Char
  deriving DecidableEq, Repr

def Split.push (c : Char) (s : Split) : Split := { s with taken := c :: s.taken }

/-- What a gap between tokens is inside of. -/
inductive GapMode where
  | blank | lineComment | blockComment
  deriving DecidableEq, Repr

/-- Splits off blanks and comments. -/
def splitGap : GapMode → List Char → Split
  | _, [] => ⟨[], []⟩
  | .blank, '-' :: '-' :: cs => ((splitGap .lineComment cs).push '-').push '-'
  | .blank, '/' :: '*' :: cs => ((splitGap .blockComment cs).push '*').push '/'
  | .blank, c :: cs =>
    if Text.isTokenBlank c then (splitGap .blank cs).push c else ⟨[], c :: cs⟩
  | .lineComment, c :: cs =>
    (splitGap (if c = '\n' then .blank else .lineComment) cs).push c
  | .blockComment, '*' :: '/' :: cs => ((splitGap .blank cs).push '/').push '*'
  | .blockComment, c :: cs => (splitGap .blockComment cs).push c

def isWordStart (c : Char) : Bool := c.isAlpha || c = '_'
def isWordChar (c : Char) : Bool := c.isAlphanum || c = '_'

/-- Splits off the characters that satisfy `p`. -/
def splitWhile (p : Char → Bool) (cs : List Char) : Split := ⟨cs.takeWhile p, cs.dropWhile p⟩

/-- Splits off everything through the first closing bracket. -/
def splitBracket : List Char → Option Split
  | [] => none
  | c :: cs => if c = ']' then some ⟨[c], cs⟩ else (splitBracket cs).map (Split.push c)

/-- Splits off everything through the closing quote; two quotes in a row do not close. -/
def splitQuote : List Char → Option Split
  | '\'' :: '\'' :: cs => (splitQuote cs).map fun s => (s.push '\'').push '\''
  | '\'' :: cs => some ⟨['\''], cs⟩
  | c :: cs => (splitQuote cs).map (Split.push c)
  | [] => none

/-- An operator or punctuation mark of one or two characters. -/
def operator? : Char → List Char → Option (TokenKind × Split)
  | '=', '=' :: cs => some (.eqEq, ⟨['=', '='], cs⟩)
  | '<', '=' :: cs => some (.le, ⟨['<', '='], cs⟩)
  | '<', '>' :: cs => some (.ne, ⟨['<', '>'], cs⟩)
  | '>', '=' :: cs => some (.ge, ⟨['>', '='], cs⟩)
  | '!', '=' :: cs => some (.bangEq, ⟨['!', '='], cs⟩)
  | c, cs => (single? c).map fun kind => (kind, ⟨[c], cs⟩)
where
  single? : Char → Option TokenKind
    | '+' => some .plus
    | '-' => some .minus
    | '*' => some .star
    | '/' => some .slash
    | '%' => some .percent
    | '=' => some .eq
    | '<' => some .lt
    | '>' => some .gt
    | '(' => some .lparen
    | ')' => some .rparen
    | ',' => some .comma
    | ';' => some .semicolon
    | '.' => some .dot
    | '#' => some .hash
    | _ => none

/-- A number: digits, and after a point that a digit follows, digits again. -/
def splitNumber (cs : List Char) : TokenKind × Split :=
  let whole := splitWhile Char.isDigit cs
  match whole.rest with
  | '.' :: d :: rest =>
    if d.isDigit then
      let fraction := splitWhile Char.isDigit (d :: rest)
      (.real, ⟨whole.taken ++ '.' :: fraction.taken, fraction.rest⟩)
    else (.integer, whole)
  | _ => (.integer, whole)

/-- Why no token starts here. -/
inductive TokenFault where
  | unclosedIdentifier | unclosedText | unexpected (c : Char)
  deriving DecidableEq, Repr

/-- The token at the head of a text that starts with `c`. -/
def splitToken (c : Char) (cs : List Char) : Except TokenFault (TokenKind × Split) :=
  if c.isDigit then .ok (splitNumber (c :: cs))
  else if isWordStart c then
    let word := splitWhile isWordChar (c :: cs)
    .ok (.ofWord (String.ofList word.taken), word)
  else if c = '[' then match splitBracket cs with
    | some s => .ok (.identifier, s.push c)
    | none => .error .unclosedIdentifier
  else if c = '\'' then match splitQuote cs with
    | some s => .ok (.text, s.push c)
    | none => .error .unclosedText
  else match operator? c cs with
    | some token => .ok token
    | none => .error (.unexpected c)

/-! Nothing is lost, and a token is never empty. -/

/-- The two parts of a split together. -/
def Split.whole (s : Split) : List Char := s.taken ++ s.rest

@[simp] theorem Split.whole_mk (taken rest : List Char) : (⟨taken, rest⟩ : Split).whole = taken ++ rest :=
  rfl

@[simp] theorem Split.whole_push (c : Char) (s : Split) : (s.push c).whole = c :: s.whole := rfl

@[simp] theorem Split.taken_push_ne_nil (c : Char) (s : Split) : (s.push c).taken ≠ [] := by
  simp [Split.push]

@[simp] theorem splitWhile_whole (p : Char → Bool) (cs : List Char) :
    (splitWhile p cs).whole = cs := List.takeWhile_append_dropWhile

theorem splitGap_whole (mode : GapMode) (cs : List Char) : (splitGap mode cs).whole = cs := by
  fun_induction splitGap mode cs <;> simp_all

theorem splitBracket_whole {cs : List Char} {s : Split} (h : splitBracket cs = some s) :
    s.whole = cs := by
  induction cs generalizing s with
  | nil => simp [splitBracket] at h
  | cons c cs ih =>
    simp only [splitBracket] at h
    split at h
    · cases h; rfl
    · obtain ⟨t, ht, rfl⟩ := Option.map_eq_some_iff.mp h
      simp [ih ht]

theorem splitQuote_whole {cs : List Char} {s : Split} (h : splitQuote cs = some s) :
    s.whole = cs := by
  fun_induction splitQuote cs generalizing s with
  | case1 cs ih =>
    obtain ⟨t, ht, rfl⟩ := Option.map_eq_some_iff.mp h
    simp [ih ht]
  | case2 cs => cases h; rfl
  | case3 c cs _ _ ih =>
    obtain ⟨t, ht, rfl⟩ := Option.map_eq_some_iff.mp h
    simp [ih ht]
  | case4 => cases h

theorem splitNumber_whole (cs : List Char) : (splitNumber cs).2.whole = cs := by
  have whole := splitWhile_whole Char.isDigit cs
  unfold splitNumber
  simp only
  split
  · next d rest h =>
    have fraction := splitWhile_whole Char.isDigit (d :: rest)
    split
    · simp only [Split.whole] at whole fraction ⊢
      rw [List.append_assoc, List.cons_append, fraction, ← h, whole]
    · exact whole
  · exact whole

theorem splitNumber_taken_ne_nil {c : Char} (cs : List Char) (h : c.isDigit) :
    (splitNumber (c :: cs)).2.taken ≠ [] := by
  unfold splitNumber
  simp only
  split
  · split <;> simp [splitWhile, h]
  · simp [splitWhile, h]

theorem operator?_whole {c : Char} {cs : List Char} {kind : TokenKind} {s : Split}
    (h : operator? c cs = some (kind, s)) : s.whole = c :: cs ∧ s.taken ≠ [] := by
  unfold operator? at h
  split at h
  case h_6 =>
    obtain ⟨k, _, hk⟩ := Option.map_eq_some_iff.mp h
    cases hk
    simp [Split.whole]
  all_goals cases h; simp [Split.whole]

theorem isWordChar_of_isWordStart {c : Char} (h : isWordStart c) : isWordChar c := by
  simp only [isWordStart, isWordChar, Char.isAlphanum, Bool.or_eq_true] at h ⊢
  exact h.imp_left Or.inl

theorem splitToken_whole {c : Char} {cs : List Char} {kind : TokenKind} {s : Split}
    (h : splitToken c cs = .ok (kind, s)) : s.whole = c :: cs ∧ s.taken ≠ [] := by
  unfold splitToken at h
  split at h
  · next digit =>
    have number : splitNumber (c :: cs) = (kind, s) := Except.ok.inj h
    have whole := splitNumber_whole (c :: cs)
    have nonempty := splitNumber_taken_ne_nil cs digit
    rw [number] at whole nonempty
    exact ⟨whole, nonempty⟩
  split at h
  · next start =>
    cases h
    refine ⟨splitWhile_whole _ _, ?_⟩
    simp [splitWhile, isWordChar_of_isWordStart start]
  split at h
  · next bracket =>
    split at h
    · next t ht =>
      cases h
      simp [splitBracket_whole ht]
    · cases h
  split at h
  · split at h
    · next t ht =>
      cases h
      simp [splitQuote_whole ht]
    · cases h
  split at h
  · next token ht =>
    cases h
    exact operator?_whole ht
  · cases h

end TabularQuery
