import TabularQuery.Table.Key

/-!
What a hasher takes in of a key: how many values there are, and for each a mark of its type and the value in the form
in which keys compare it. The columns do not count here either.
-/

namespace TabularQuery

/-- A piece that a hasher takes in. -/
inductive HashItem where
  | count (n : Nat)
  | byte (b : UInt8)
  | bits (b : UInt64)
  | integer (n : Int64)
  | text (s : String)
  deriving DecidableEq, Repr

def Value.hashItems : Value → List HashItem
  | .integer n => [.byte 0, .integer n]
  | .real x => [.byte 1, .bits x.keyBits]
  | .text s => [.byte 2, .text s]
  | .boolean b => [.byte 3, .byte (if b then 1 else 0)]

def Key.hashItems (k : Key) : List HashItem := .count k.values.length :: k.values.flatMap Value.hashItems

end TabularQuery
