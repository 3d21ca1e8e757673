import TabularQuery.Decimal.Binary64

/-!
The fewest decimal digits that read back as a given number.

A positive finite number is the nearest one to every real of an interval around it, whose ends
belong to it when the significand is even. For one, two, … digits the two grid points around the
number are tried in exact arithmetic; the first grid with a point in the interval wins, of two
points the nearer, and an exact tie goes up.
-/

namespace TabularQuery.Decimal

/-- The number `0.d₁d₂… × 10 ^ point`. -/
structure Digits where
  digits : List Char
  point : Int
  deriving DecidableEq, Repr

/-- How many decimal digits a positive natural number has. -/
def width (n : Nat) : Nat := (Nat.toDigits 10 n).length

/-- The point of a positive fraction: the least `k` with `num / den < 10 ^ k`. -/
def pointOf (num den : Nat) : Int :=
  if den ≤ num then width (num / den) else 1 - (width ((den + num - 1) / num - 1) : Int)

/-- A number and the ends of its interval over a common denominator. -/
structure Interval where
  low : Nat
  value : Nat
  high : Nat
  den : Nat
  /-- Do the ends belong to the interval? -/
  closed : Bool

/-- The interval of a positive finite number. The gap below a power of two is half as wide. -/
def intervalOf (x : Binary64) : Interval :=
  let exponent := x.exponentField
  let fraction := x.fractionField
  let significand := if exponent = 0 then fraction else 1 <<< 52 + fraction
  let below := if fraction = 0 && 1 < exponent then 1 else 2
  -- the unit is a quarter of the last place: 2 ^ (max exponent 1 - 1077)
  let scale := Nat.max exponent 1
  let up := 1 <<< (scale - 1077)
  { low := (4 * significand - below) * up
    value := 4 * significand * up
    high := (4 * significand + 2) * up
    den := 1 <<< (1077 - scale)
    closed := fraction % 2 = 0 }

/-- Is `n / den` in the interval? -/
def Interval.contains (i : Interval) (n : Nat) : Bool :=
  if i.closed then i.low ≤ n && n ≤ i.high else i.low < n && n < i.high

/-- The digits of a grid point, without zeros at the end. -/
def Digits.ofGrid (n : Nat) (point : Int) (places : Nat) : Digits :=
  let all := Nat.toDigits 10 n
  { digits := (all.reverse.dropWhile (· = '0')).reverse
    point := point + ((all.length : Int) - places) }

/-- Tries the grid with `places` digits. -/
def onGrid? (i : Interval) (point : Int) (places : Nat) : Option Digits :=
  let finer := Nat.pow 10 ((places : Int) - point).toNat
  let coarser := Nat.pow 10 (point - places).toNat
  let scaled : Interval :=
    { i with low := i.low * finer, value := i.value * finer, high := i.high * finer }
  let unit := i.den * coarser
  let d := scaled.value / unit
  let lower := scaled.contains (d * unit)
  let upper := scaled.contains ((d + 1) * unit)
  let nearUpper := (d + 1) * unit - scaled.value ≤ scaled.value - d * unit
  if upper && (!lower || nearUpper) then some (.ofGrid (d + 1) point places)
  else if lower then some (.ofGrid d point places)
  else none

/-- The fewest digits of a positive finite number; seventeen are always enough. -/
def shortest (x : Binary64) : Digits :=
  let i := intervalOf x
  let point := pointOf i.value i.den
  ((List.range 17).findSome? fun n => onGrid? i point (n + 1)).getD
    (.ofGrid (i.value / i.den) point (width (i.value / i.den)))

end TabularQuery.Decimal
