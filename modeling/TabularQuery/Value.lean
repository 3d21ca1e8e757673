import TabularQuery.Error
import TabularQuery.Decimal.Layout
import TabularQuery.Decimal.Numeral

/-!
Values and numbers. A value carries its type; a number is an entry of the numeric stack, where
integers and reals meet. Integer arithmetic is exact or refused, and as soon as one operand is a
real both are.
-/

namespace TabularQuery

inductive Value where
  | integer (n : Int64)
  | real (x : Binary64)
  | text (s : String)
  | boolean (b : Bool)
  deriving DecidableEq, Repr

inductive Number where
  | integer (n : Int64)
  | real (x : Binary64)
  deriving DecidableEq, Repr

namespace Value

def type : Value → ColumnType
  | .integer _ => .integer
  | .real _ => .real
  | .text _ => .text
  | .boolean _ => .boolean

/-- The value as one of type `wanted`; an integer widens to a real, and nothing else changes. -/
def coerce (wanted : ColumnType) : Value → Except Error Value
  | .integer n => match wanted with
    | .integer => .ok (.integer n)
    | .real => .ok (.real (.ofInt64 n))
    | _ => .error (.valueMismatch wanted .integer)
  | v => if v.type = wanted then .ok v else .error (.valueMismatch wanted v.type)

def toInt64? : Value → Option Int64
  | .integer n => some n
  | _ => none

/-- A numeric value as a real. -/
def toReal? : Value → Option Binary64
  | .integer n => some (.ofInt64 n)
  | .real x => some x
  | _ => none

def toText? : Value → Option String
  | .text s => some s
  | _ => none

def toBool? : Value → Option Bool
  | .boolean b => some b
  | _ => none

/-- The order of two values: within a type, or of two numbers as reals; others have none. -/
def compare : Value → Value → Option Ordering
  | .integer a, .integer b => some (Ord.compare a b)
  | .text a, .text b => some (Ord.compare a b)
  | .boolean a, .boolean b => some (Ord.compare a b)
  | a, b => do (← a.toReal?).compare (← b.toReal?)

/-- Text form of a value. -/
def render : Value → String
  | .integer n => toString n.toInt
  | .real x => Decimal.plain x
  | .text s => s
  | .boolean b => if b then "true" else "false"

@[simp] theorem coerce_type (v : Value) : v.coerce v.type = .ok v := by
  cases v <;> rfl

end Value

namespace Number

def toReal : Number → Binary64
  | .integer n => .ofInt64 n
  | .real x => x

def toValue : Number → Value
  | .integer n => .integer n
  | .real x => .real x

/-- A number with its constructor, as messages show it. -/
def shown : Number → String
  | .integer n => s!"Integer({n.toInt})"
  | .real x => s!"Real({Decimal.compact x})"

/-- The number as a value of type `wanted`; an integer widens to a real. -/
def toType (wanted : ColumnType) : Number → Except Error Value
  | .integer n => match wanted with
    | .integer => .ok (.integer n)
    | .real => .ok (.real (.ofInt64 n))
    | _ => .error (.numberMismatch (shown (.integer n)) wanted)
  | .real x => match wanted with
    | .real => .ok (.real x)
    | _ => .error (.numberMismatch (shown (.real x)) wanted)

def compare : Number → Number → Option Ordering
  | .integer a, .integer b => some (Ord.compare a b)
  | a, b => a.toReal.compare b.toReal

/-- An integer result, refused when it is out of range. -/
def ofInt (n : Int) : Except Error Number :=
  match Decimal.int64? n with
  | some i => .ok (.integer i)
  | none => .error .overflow

def add : Number → Number → Except Error Number
  | .integer a, .integer b => ofInt (a.toInt + b.toInt)
  | a, b => .ok (.real (a.toReal.add b.toReal))

def sub : Number → Number → Except Error Number
  | .integer a, .integer b => ofInt (a.toInt - b.toInt)
  | a, b => .ok (.real (a.toReal.sub b.toReal))

def mul : Number → Number → Except Error Number
  | .integer a, .integer b => ofInt (a.toInt * b.toInt)
  | a, b => .ok (.real (a.toReal.mul b.toReal))

/-- Integer division truncates toward zero. -/
def div : Number → Number → Except Error Number
  | .integer a, .integer b =>
    if b = 0 then .error .divisionByZero else ofInt (a.toInt.tdiv b.toInt)
  | a, b => .ok (.real (a.toReal.div b.toReal))

/-- The remainder has the sign of the dividend; it is refused whenever the quotient is. -/
def rem : Number → Number → Except Error Number
  | .integer a, .integer b =>
    if b = 0 then .error .divisionByZero
    else do
      let _ ← ofInt (a.toInt.tdiv b.toInt)
      ofInt (a.toInt.tmod b.toInt)
  | a, b => .ok (.real (a.toReal.rem b.toReal))

def neg : Number → Except Error Number
  | .integer n => ofInt (-n.toInt)
  | .real x => .ok (.real x.neg)

end Number

end TabularQuery
