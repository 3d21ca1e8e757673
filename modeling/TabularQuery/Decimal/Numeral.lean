/-!
Decimal numerals and the 64-bit integers they stand for. A numeral is an optional sign and at least
one digit; the signed reader takes both signs, the unsigned one only a plus.
-/

namespace TabularQuery.Decimal

/-- The 64-bit integer equal to `n`, if there is one. -/
def int64? (n : Int) : Option Int64 :=
  if Int64.minValue.toInt ≤ n ∧ n ≤ Int64.maxValue.toInt then some (Int64.ofInt n) else none

theorem int64?_eq_some_iff {n : Int} {i : Int64} : int64? n = some i ↔ i.toInt = n := by
  unfold int64?
  rw [Int64.toInt_minValue, Int64.toInt_maxValue]
  constructor
  · intro h
    split at h
    · next range =>
      cases h
      exact Int64.toInt_ofInt_of_le range.1 (Int.lt_of_le_sub_one range.2)
    · cases h
  · rintro rfl
    rw [if_pos ⟨Int64.le_toInt i, Int.le_sub_one_of_lt (Int64.toInt_lt i)⟩, Int64.ofInt_toInt]

def digitValue (c : Char) : Nat := c.toNat - '0'.toNat

/-- The number that a row of digits stands for. -/
def natOfDigits (cs : List Char) : Nat := cs.foldl (fun n c => 10 * n + digitValue c) 0

/-- At least one digit, and digits only. -/
def readDigits? (cs : List Char) : Option Nat :=
  if !cs.isEmpty && cs.all Char.isDigit then some (natOfDigits cs) else none

def readSigned? : List Char → Option Int
  | '-' :: digits => (readDigits? digits).map fun n => -(n : Int)
  | '+' :: digits => (readDigits? digits).map Int.ofNat
  | digits => (readDigits? digits).map Int.ofNat

/-- A signed numeral in the 64-bit range. -/
def readInt64? (cs : List Char) : Option Int64 := (readSigned? cs).bind int64?

/-- An unsigned numeral below `2 ^ 64`. -/
def readUInt64? (cs : List Char) : Option Nat :=
  let digits := match cs with
    | '+' :: digits => digits
    | digits => digits
  (readDigits? digits).bind fun n => if n < UInt64.size then some n else none

end TabularQuery.Decimal
