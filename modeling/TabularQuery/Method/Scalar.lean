import TabularQuery.Value
import TabularQuery.Text.Case
import TabularQuery.Text.Blank

/-!
Scalar methods. A method takes values of the types that its signature asks for; handed anything
else it says so, which only a signature at odds with its method can bring about.
-/

namespace TabularQuery

/-- What a scalar method computes from its arguments. -/
abbrev ScalarFunction := List Value → Except Error Value

namespace Scalar

def unexpected (method : String) (args : List Value) : Except Error Value :=
  .error (.argumentsUnexpected method (args.map Value.type))

def toUpper : ScalarFunction
  | [.text s] => .ok (.text (Text.upper s))
  | args => unexpected "ToUpper" args

def toLower : ScalarFunction
  | [.text s] => .ok (.text (Text.lower s))
  | args => unexpected "ToLower" args

/-- Length in characters. -/
def length : ScalarFunction
  | [.text s] => .ok (.integer (Int64.ofNat s.length))
  | args => unexpected "Length" args

def trim : ScalarFunction
  | [.text s] => .ok (.text (Text.trim s))
  | args => unexpected "Trim" args

/-- At most `count` characters from `start` on, both clamped to the text. -/
def slice (s : String) (start count : Int) : String :=
  String.ofList ((s.toList.drop start.toNat).take count.toNat)

def substring : ScalarFunction
  | [.text s, .integer start, .integer count] => .ok (.text (slice s start.toInt count.toInt))
  | args => unexpected "Substring" args

def concat : ScalarFunction
  | [.text a, .text b] => .ok (.text (a ++ b))
  | args => unexpected "Concat" args

/-- Does `part` occur in `whole` as a run of neighbouring characters? -/
def occursIn (part : List Char) : List Char → Bool
  | [] => part.isEmpty
  | c :: rest => part.isPrefixOf (c :: rest) || occursIn part rest

def contains : ScalarFunction
  | [.text a, .text b] => .ok (.boolean (occursIn b.toList a.toList))
  | args => unexpected "Contains" args

/-- A magnitude as an integer, refused when it is out of range. -/
def magnitude (n : Int) : Except Error Value :=
  match Decimal.int64? n with
  | some i => .ok (.integer i)
  | none => .error .overflowInAbs

def abs : ScalarFunction
  | [.integer n] => magnitude n.toInt.natAbs
  | [.real x] => .ok (.real x.abs)
  | args => unexpected "Abs" args

/-- `x` to a number of decimal places between none and fifteen, a half going away from zero. -/
def roundTo (x : Binary64) (places : Int) : Binary64 :=
  let factor := Binary64.ofDecimal (Nat.pow 10 (min places 15).toNat) 0
  (x.mul factor).round.div factor

def round : ScalarFunction
  | [.real x, .integer places] => .ok (.real (roundTo x places.toInt))
  | args => unexpected "Round" args

/-- The nearest number to the circle's ratio, whatever the arguments. -/
def pi : ScalarFunction := fun _ => .ok (.real ⟨0x400921fb54442d18⟩)

def toText : ScalarFunction
  | [v] => .ok (.text v.render)
  | args => unexpected "ToString" args

/-- The integer that a text stands for, white space around it apart. -/
def toInteger : ScalarFunction
  | [.text s] => match Decimal.readInt64? (Text.trimChars s.toList) with
    | some n => .ok (.integer n)
    | none => .error (.notAnInteger s)
  | args => unexpected "ToInt" args

def toReal : ScalarFunction
  | [v] => match v.toReal? with
    | some x => .ok (.real x)
    | none => unexpected "ToReal" [v]
  | args => unexpected "ToReal" args

end Scalar

end TabularQuery
