import TabularQuery.Error
import TabularQuery.Token
import TabularQuery.Token.Split

/-!
Reading tokens off query text, with their places. A line feed starts a new line everywhere but
inside a bracketed identifier. The last token is the empty one at the end.
-/

namespace TabularQuery

/-- The first byte of a character's UTF-8 form. -/
def leadByte (c : Char) : Nat :=
  let n := c.toNat
  if n < 0x80 then n
  else if n < 0x800 then 0xc0 + n / 0x40
  else if n < 0x10000 then 0xe0 + n / 0x1000
  else 0xf0 + n / 0x40000

/-- The character that stands for an unexpected one in a message: that of its first byte. -/
def shownChar (c : Char) : Char := Char.ofNat (leadByte c)

/-- The text that is left, and where it stands. -/
structure Scanner where
  rest : List Char
  offset : Nat
  place : Position
  deriving DecidableEq, Repr

namespace Scanner

def ofText (source : String) : Scanner := ⟨source.toList, 0, ⟨1, 1⟩⟩

/-- The place after a character; a line feed starts a new line when `lines` holds. -/
def placeAfter (lines : Bool) (p : Position) (c : Char) : Position :=
  if lines && c = '\n' then ⟨p.line + 1, 1⟩ else ⟨p.line, p.column + 1⟩

def bytes (cs : List Char) : Nat := cs.foldl (fun n c => n + c.utf8Size) 0

/-- Passes over the first part of a split. -/
def pass (s : Scanner) (lines : Bool) (split : Split) : Scanner :=
  ⟨split.rest, s.offset + bytes split.taken, split.taken.foldl (placeAfter lines) s.place⟩

/-- Passes over blanks and comments. -/
def skipGap (s : Scanner) : Scanner := s.pass true (splitGap .blank s.rest)

/-- What follows a fault: after an unclosed token the end, after an unexpected character the rest. -/
def recover (s : Scanner) (c : Char) (cs : List Char) : TokenFault → Error × Scanner
  | .unclosedIdentifier => (.identifierUnclosed s.place, s.pass false ⟨c :: cs, []⟩)
  | .unclosedText => (.textUnclosed s.place, s.pass true ⟨c :: cs, []⟩)
  | .unexpected c => (.characterUnexpected (shownChar c) s.place, s.pass true ⟨[c], cs⟩)

/-- Reads the next token; at the end that is the empty one, again and again. -/
def next (scanner : Scanner) : Except Error Token × Scanner :=
  let s := scanner.skipGap
  match s.rest with
  | [] => (.ok ⟨.eof, "", s.offset, s.offset, s.place⟩, s)
  | c :: cs =>
    match splitToken c cs with
    | .ok (kind, split) =>
      let after := s.pass (c ≠ '[') split
      (.ok ⟨kind, String.ofList split.taken, s.offset, after.offset, s.place⟩, after)
    | .error fault =>
      let (e, after) := s.recover c cs fault
      (.error e, after)

@[simp] theorem rest_pass (s : Scanner) (lines : Bool) (split : Split) :
    (s.pass lines split).rest = split.rest := rfl

theorem rest_length_skipGap (s : Scanner) : s.skipGap.rest.length ≤ s.rest.length := by
  have whole := congrArg List.length (splitGap_whole .blank s.rest)
  simp only [Split.whole, List.length_append] at whole
  simp only [skipGap, rest_pass]
  omega

/-- A token that is not the last one is taken off the text. -/
theorem rest_length_next {s after : Scanner} {t : Token} (h : s.next = (.ok t, after))
    (notLast : t.kind ≠ .eof) : after.rest.length < s.rest.length := by
  have gap := rest_length_skipGap s
  unfold next at h
  simp only at h
  split at h
  · simp only [Prod.mk.injEq, Except.ok.injEq] at h
    exact absurd (h.1 ▸ rfl) notLast
  · next c cs hrest =>
    split at h
    · next kind split hsplit =>
      obtain ⟨whole, nonempty⟩ := splitToken_whole hsplit
      simp only [Prod.mk.injEq] at h
      rw [← h.2, rest_pass]
      have lengths := congrArg List.length whole
      have positive := List.length_pos_iff.mpr nonempty
      simp only [Split.whole, List.length_append] at lengths
      rw [hrest] at gap
      omega
    · simp at h

/-- All tokens from here on, the empty one at the end included. -/
def tokens (s : Scanner) : Except Error (List Token) :=
  match h : s.next with
  | (.error e, _) => .error e
  | (.ok t, after) =>
    if last : t.kind = .eof then .ok [t]
    else
      have := rest_length_next h last
      (t :: ·) <$> after.tokens
termination_by s.rest.length

end Scanner

/-- The tokens of a query text. -/
def tokenize (source : String) : Except Error (List Token) := (Scanner.ofText source).tokens

/-- A text that is spelled out is scanned character by character. -/
theorem tokenize_ofList (cs : List Char) : tokenize (String.ofList cs) = Scanner.tokens ⟨cs, 0, ⟨1, 1⟩⟩ := by
  rw [tokenize, Scanner.ofText, String.toList_ofList]

theorem tokenize_append (cs ds : List Char) :
    tokenize (String.ofList cs ++ String.ofList ds) = Scanner.tokens ⟨cs ++ ds, 0, ⟨1, 1⟩⟩ := by
  rw [← String.ofList_append, tokenize_ofList]

end TabularQuery
