import TabularQuery.Text.CodeClasses

/-!
Quoted forms of texts: between single quotes as a query has them, an inner quote written twice; and
between double quotes with escapes, as messages about operands show them.
-/

namespace TabularQuery.Text

/-- Writes every quote twice. -/
def doubleQuotes : List Char → List Char
  | [] => []
  | c :: rest => if c = '\'' then c :: c :: doubleQuotes rest else c :: doubleQuotes rest

/-- Reads two quotes as one; a quote that stands alone is kept. -/
def singleQuotes : List Char → List Char
  | '\'' :: '\'' :: rest => '\'' :: singleQuotes rest
  | c :: rest => c :: singleQuotes rest
  | [] => []

theorem singleQuotes_doubleQuotes (cs : List Char) : singleQuotes (doubleQuotes cs) = cs := by
  induction cs with
  | nil => rfl
  | cons c rest ih =>
    by_cases h : c = '\''
    · subst h
      simp [doubleQuotes, singleQuotes, ih]
    · simp [doubleQuotes, singleQuotes, h, ih]

/-- A text literal of a query. -/
def quoted (s : String) : String := "'" ++ String.ofList (doubleQuotes s.toList) ++ "'"

def hexDigits (n : Nat) : List Char := Nat.toDigits 16 n

def isUnprintable (c : Char) : Bool := inClass unprintable c.toNat

def escapeChar (c : Char) : List Char :=
  match c with
  | '\x00' => ['\\', '0']
  | '\t' => ['\\', 't']
  | '\r' => ['\\', 'r']
  | '\n' => ['\\', 'n']
  | '"' => ['\\', '"']
  | '\\' => ['\\', '\\']
  | c => if isUnprintable c then ['\\', 'u', '{'] ++ hexDigits c.toNat ++ ['}'] else [c]

/-- A text between double quotes with everything invisible escaped. -/
def escaped (s : String) : String :=
  String.ofList ('"' :: s.toList.flatMap escapeChar ++ ['"'])

end TabularQuery.Text
