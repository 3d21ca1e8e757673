import TabularQuery.Token.Scanner

/-!
Reading along a list of tokens. The last token, the end of the input, is never passed, so there is
always a current token; a reader that is not content says so at the current one.
-/

namespace TabularQuery

structure TokenStream where
  current : Token
  rest : List Token

/-- A reader of tokens that may fail. -/
abbrev TokenReader := EStateM Error TokenStream

namespace TokenStream

/-- A stream of at least one token. -/
def ofTokens? : List Token → Option TokenStream
  | [] => none
  | t :: rest => some ⟨t, rest⟩

def kind (s : TokenStream) : TokenKind := s.current.kind

/-- The kind of the token after the current one. -/
def nextKind (s : TokenStream) : TokenKind := (s.rest.head?.getD s.current).kind

/-- Moves to the next token, if there is one. -/
def advance (s : TokenStream) : TokenStream :=
  match s.rest with
  | [] => s
  | t :: rest => ⟨t, rest⟩

/-- More than the number of moves that can be made. -/
def fuel (s : TokenStream) : Nat := s.rest.length + 1

end TokenStream

namespace TokenReader

def kind : TokenReader TokenKind := TokenStream.kind <$> get

def nextKind : TokenReader TokenKind := TokenStream.nextKind <$> get

def advance : TokenReader Unit := modify TokenStream.advance

/-- Fails at the current token. -/
def fail (wanted : Expectation) : TokenReader α := do
  let t := (← get).current
  throw (.tokenUnexpected wanted t.place (if t.kind = .eof then none else some t.text))

/-- Passes a token of the given kind, or tells that there is none. -/
def accept (kind : TokenKind) : TokenReader Bool := do
  if (← get).kind = kind then
    advance
    return true
  else return false

def expect (kind : TokenKind) : TokenReader Unit := do
  if !(← accept kind) then fail (.token kind)

/-- Passes the current token and gives its text. -/
def takeText : TokenReader String := do
  let text := (← get).current.text
  advance
  return text

/-- Items after commas; `n` bounds their number. -/
def moreItems (item : TokenReader α) : (n : Nat) → TokenReader (List α)
  | 0 => return []
  | n + 1 => do
    if ← accept .comma then
      let first ← item
      let rest ← moreItems item n
      return first :: rest
    else return []

/-- One item or more with commas between them. -/
def commaList (item : TokenReader α) : TokenReader (List α) := do
  let first ← item
  let rest ← moreItems item (← get).fuel
  return first :: rest

/-- What `reader` reads after a token of the given kind, if there is one. -/
def after? (kind : TokenKind) (reader : TokenReader α) : TokenReader (Option α) := do
  if ← accept kind then some <$> reader else return none

end TokenReader

end TabularQuery
