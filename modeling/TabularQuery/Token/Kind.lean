/-!
Kinds of tokens. A word is a keyword or an identifier according to its letters alone, in either case.
-/

namespace TabularQuery

/-- What a token is. The keywords carry a `kw` so that they never clash with reserved words. -/
inductive TokenKind where
  | integer | real | text | identifier
  | kwAll | kwAnd | kwAs | kwBy | kwDesc | kwExcept | kwFalse | kwFrom | kwGroup | kwHaving | kwIn
  | kwInner | kwIntersect | kwJoin | kwLike | kwNot | kwOn | kwOr | kwSelect | kwSkip | kwTake
  | kwTrue | kwUnion | kwWhere | kwWith
  | plus | minus | star | slash | percent
  | eq | eqEq | ne | bangEq | lt | le | gt | ge
  | lparen | rparen | comma | semicolon | dot | hash
  | eof
  deriving DecidableEq, Repr

namespace TokenKind

/-- Keywords in capital letters, with the kinds they stand for. -/
def keywords : List (String × TokenKind) :=
  [("ALL", .kwAll), ("AND", .kwAnd), ("AS", .kwAs), ("BY", .kwBy), ("DESC", .kwDesc),
   ("EXCEPT", .kwExcept), ("FALSE", .kwFalse), ("FROM", .kwFrom), ("GROUP", .kwGroup),
   ("HAVING", .kwHaving), ("IN", .kwIn), ("INNER", .kwInner), ("INTERSECT", .kwIntersect),
   ("JOIN", .kwJoin), ("LIKE", .kwLike), ("NOT", .kwNot), ("ON", .kwOn), ("OR", .kwOr),
   ("SELECT", .kwSelect), ("SKIP", .kwSkip), ("TAKE", .kwTake), ("TRUE", .kwTrue),
   ("UNION", .kwUnion), ("WHERE", .kwWhere), ("WITH", .kwWith)]

/-- The kind of a word of ASCII letters, digits and underscores. -/
def ofWord (word : String) : TokenKind :=
  (keywords.lookup (word.map Char.toUpper)).getD .identifier

def isKeyword (kind : TokenKind) : Bool :=
  keywords.any fun (_, k) => k = kind

/-- Name of a kind, as syntax errors show it. -/
def name : TokenKind → String
  | .integer => "Integer" | .real => "Float" | .text => "String" | .identifier => "Identifier"
  | .kwAll => "All" | .kwAnd => "And" | .kwAs => "As" | .kwBy => "By" | .kwDesc => "Desc"
  | .kwExcept => "Except" | .kwFalse => "False" | .kwFrom => "From" | .kwGroup => "Group"
  | .kwHaving => "Having" | .kwIn => "In" | .kwInner => "Inner" | .kwIntersect => "Intersect"
  | .kwJoin => "Join" | .kwLike => "Like" | .kwNot => "Not" | .kwOn => "On" | .kwOr => "Or"
  | .kwSelect => "Select" | .kwSkip => "Skip" | .kwTake => "Take" | .kwTrue => "True"
  | .kwUnion => "Union" | .kwWhere => "Where" | .kwWith => "With"
  | .plus => "Plus" | .minus => "Minus" | .star => "Star" | .slash => "Slash"
  | .percent => "Percent" | .eq => "Eq" | .eqEq => "EqEq" | .ne => "Ne" | .bangEq => "BangEq"
  | .lt => "Lt" | .le => "Le" | .gt => "Gt" | .ge => "Ge"
  | .lparen => "LParen" | .rparen => "RParen" | .comma => "Comma" | .semicolon => "Semicolon"
  | .dot => "Dot" | .hash => "Hash" | .eof => "Eof"

end TokenKind

/-- A place in the query text: lines and columns count from one, columns in characters. -/
structure Position where
  line : Nat
  column : Nat
  deriving DecidableEq, Repr

end TabularQuery
