/-!
White space. Texts are trimmed of every character with the Unicode property of that name; query
text knows only the five ASCII ones.
-/

namespace TabularQuery.Text

/-- First and last code point of each run of white space. -/
def blanks : List (Nat × Nat) := [
  (0x9, 0xd), (0x20, 0x20), (0x85, 0x85), (0xa0, 0xa0), (0x1680, 0x1680), (0x2000, 0x200a),
  (0x2028, 0x2029), (0x202f, 0x202f), (0x205f, 0x205f), (0x3000, 0x3000)]

def isBlank (c : Char) : Bool :=
  blanks.any fun (first, last) => first ≤ c.toNat && c.toNat ≤ last

/-- White space between tokens: space, tab, line feed, form feed and carriage return. -/
def isTokenBlank (c : Char) : Bool :=
  c = ' ' || c = '\t' || c = '\n' || c = '\x0c' || c = '\r'

/-- `cs` without the characters at its end that satisfy `p`. -/
def dropRightWhile (p : Char → Bool) (cs : List Char) : List Char :=
  (cs.reverse.dropWhile p).reverse

def trimChars (cs : List Char) : List Char := dropRightWhile isBlank (cs.dropWhile isBlank)

def trim (s : String) : String := String.ofList (trimChars s.toList)

end TabularQuery.Text
