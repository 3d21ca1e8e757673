import TabularQuery.Token.Kind

/-!
Tokens: a kind, the text it was read from, and where that text stands. Offsets count bytes of the
UTF-8 form, columns count characters.
-/

namespace TabularQuery

structure Token where
  kind : TokenKind
  text : String
  start : Nat
  stop : Nat
  place : Position
  deriving DecidableEq, Repr

end TabularQuery
