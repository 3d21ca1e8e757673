/-!
Real values: 64-bit binary floating point numbers, held as their bit patterns.

A pattern has a sign bit, eleven exponent bits and fifty-two fraction bits. A finite number is a
whole multiple of the least positive one, so its `magnitude` is a natural number in that unit; order
and remainder are exact computations on magnitudes. Sums, products and quotients are those of
`Float`, which rounds to nearest, except that bit patterns of NaNs are kept apart: an operand
that is a NaN is passed on, the left one first, and an invalid operation gives `invalid`.
-/

namespace TabularQuery

structure Binary64 where
  bits : UInt64
  deriving DecidableEq, Repr, Inhabited

namespace Binary64

def signBit : UInt64 := 0x8000000000000000
def infinityBits : UInt64 := 0x7ff0000000000000

/-- The result of an operation that has none: the quiet NaN with its sign bit set. -/
def invalid : Binary64 := ⟨0xfff8000000000000⟩

def zero : Binary64 := ⟨0⟩

def isNegative (x : Binary64) : Bool := x.bits &&& signBit != 0

/-- The pattern without its sign bit; for numbers its order is that of the absolute values. -/
def absBits (x : Binary64) : UInt64 := x.bits &&& 0x7fffffffffffffff

def isNaN (x : Binary64) : Bool := infinityBits < x.absBits
def isInfinite (x : Binary64) : Bool := x.absBits = infinityBits
def isZero (x : Binary64) : Bool := x.absBits = 0

def exponentField (x : Binary64) : Nat := (x.absBits >>> 52).toNat
def fractionField (x : Binary64) : Nat := (x.bits &&& 0xfffffffffffff).toNat

def neg (x : Binary64) : Binary64 := ⟨x.bits ^^^ signBit⟩
def abs (x : Binary64) : Binary64 := ⟨x.absBits⟩

/-- The quiet form of a NaN. -/
def quiet (x : Binary64) : Binary64 := ⟨x.bits ||| 0x8000000000000⟩

def toFloat (x : Binary64) : Float := Float.ofBits x.bits

/-- A computed number, or `invalid` where there is none. -/
def ofFloat (f : Float) : Binary64 := if f.isNaN then invalid else ⟨f.toBits⟩

/-- The nearest number to an integer, an even one of two. -/
def ofInt64 (n : Int64) : Binary64 := ofFloat n.toFloat

/-- The nearest number to `digits / 10 ^ places`. -/
def ofDecimal (digits places : Nat) : Binary64 := ofFloat (Float.ofScientific digits true places)

/-- Passes a NaN on, the left one first, and otherwise computes. -/
def withNumbers (x y : Binary64) (result : Binary64) : Binary64 :=
  if x.isNaN then x.quiet else if y.isNaN then y.quiet else result

def add (x y : Binary64) : Binary64 := withNumbers x y (ofFloat (x.toFloat + y.toFloat))
def sub (x y : Binary64) : Binary64 := withNumbers x y (ofFloat (x.toFloat - y.toFloat))
def mul (x y : Binary64) : Binary64 := withNumbers x y (ofFloat (x.toFloat * y.toFloat))
def div (x y : Binary64) : Binary64 := withNumbers x y (ofFloat (x.toFloat / y.toFloat))

/-- The nearest whole number, a half going away from zero. -/
def round (x : Binary64) : Binary64 := if x.isNaN then x.quiet else ofFloat x.toFloat.round

/-- The absolute value of a finite number, in units of the least positive number. -/
def magnitude (x : Binary64) : Nat :=
  if x.exponentField = 0 then x.fractionField
  else (1 <<< 52 + x.fractionField) <<< (x.exponentField - 1)

/-- The pattern of a magnitude that has at most fifty-three significant bits. -/
def ofMagnitude (negative : Bool) (m : Nat) : Binary64 :=
  let shift := m.log2 - 52
  let absolute := if m.log2 < 52 then m else ((shift + 1) <<< 52) + ((m >>> shift) - 1 <<< 52)
  ⟨absolute.toUInt64 ||| (if negative then signBit else 0)⟩

/-- The exact remainder of a division that rounds toward zero; it has the sign of `x`. -/
def rem (x y : Binary64) : Binary64 :=
  withNumbers x y <|
    if x.isInfinite || y.isZero then invalid
    else if y.isInfinite then x
    else ofMagnitude x.isNegative (x.magnitude % y.magnitude)

/-- The place of a number in the order; both zeros have the same. -/
def rank (x : Binary64) : Int :=
  if x.isNegative then -(x.absBits.toNat : Int) else x.absBits.toNat

/-- The order of two numbers; a NaN is not comparable. -/
def compare (x y : Binary64) : Option Ordering :=
  if x.isNaN || y.isNaN then none else some (Ord.compare x.rank y.rank)

/-- The smaller of two, the first of equals; a NaN yields to a number. -/
def min (x y : Binary64) : Binary64 :=
  if x.isNaN || y.compare x = some .lt then y else x

/-- The greater of two, the first of equals; a NaN yields to a number. -/
def max (x y : Binary64) : Binary64 :=
  if x.isNaN || y.compare x = some .gt then y else x

/-- Bits by which keys are compared: the zeros are one, NaNs are equal to themselves. -/
def keyBits (x : Binary64) : UInt64 := if x.isZero then 0 else x.bits

end Binary64

end TabularQuery
