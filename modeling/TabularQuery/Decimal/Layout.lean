import TabularQuery.Decimal.Shortest

/-!
Written forms of real values. Both forms show the fewest digits and keep a decimal point, so that a
real is never taken for an integer. The plain form is always positional; the compact form, used in
listings and messages, has an exponent for numbers from 10¹⁶ up and below 10⁻⁴.
-/

namespace TabularQuery.Decimal

/-- Where a form changes from positional to exponent notation, by the place of the point. -/
structure Layout where
  /-- Least point, and first point past the greatest, that are written positionally. -/
  positional : Option (Int × Int)

/-- Text form of a value: never an exponent. -/
def plainLayout : Layout := ⟨none⟩

/-- Form in listings and messages. -/
def compactLayout : Layout := ⟨some (-3, 17)⟩

def zeros (n : Nat) : List Char := List.replicate n '0'

/-- Positional notation with at least one digit on each side of the point. -/
def Digits.positional (d : Digits) : List Char :=
  let size : Int := d.digits.length
  if d.point ≤ 0 then '0' :: '.' :: (zeros (-d.point).toNat ++ d.digits)
  else if d.point < size then
    d.digits.take d.point.toNat ++ '.' :: d.digits.drop d.point.toNat
  else d.digits ++ zeros (d.point - size).toNat ++ ['.', '0']

/-- Exponent notation with one digit before the point, and no point after a lone digit. -/
def Digits.scientific (d : Digits) : List Char :=
  let mantissa := match d.digits with
    | first :: second :: rest => first :: '.' :: second :: rest
    | digits => digits
  mantissa ++ 'e' :: (toString (d.point - 1)).toList

def Layout.digits (layout : Layout) (d : Digits) : List Char :=
  match layout.positional with
  | some (least, past) => if least ≤ d.point && d.point < past then d.positional else d.scientific
  | none => d.positional

def Layout.write (layout : Layout) (x : Binary64) : String :=
  if x.isNaN then "NaN"
  else
    let body :=
      if x.isInfinite then "inf"
      else if x.isZero then "0.0"
      else String.ofList (layout.digits (shortest x.abs))
    if x.isNegative then "-" ++ body else body

/-- Text form: `0.1`, `2.0`, `10000000000000000.0`. -/
def plain (x : Binary64) : String := plainLayout.write x

/-- Form in listings and messages: `0.1`, `2.0`, `1e16`. -/
def compact (x : Binary64) : String := compactLayout.write x

end TabularQuery.Decimal
