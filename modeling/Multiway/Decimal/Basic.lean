/-!
Decimals and how they are written.

A decimal is a whole number of tenths, hundreds, or any other power of ten. It is written with a
decimal point where that point lies near its digits, and otherwise with one digit in front of the
point and an exponent.
-/

namespace Multiway

/-- The number `coefficient * 10 ^ exponent`, or its negative. Zero has a sign too. -/
structure Decimal where
  negative : Bool
  coefficient : Nat
  exponent : Int
deriving DecidableEq, Repr

namespace Decimal

/-- The exponents of the leading digit for which the decimal point is written in its place. -/
structure Style where
  lowest : Int
  highest : Int
deriving DecidableEq, Repr

/-- A run of zeros. -/
def zeros (count : Int) : List Char := List.replicate count.toNat '0'

/-- Digits with the decimal point in front of position `point`, which may lie outside of them.
There is a digit on both sides of the point. -/
def positional (digits : List Char) (point : Int) : List Char :=
  if point ≤ 0 then '0' :: '.' :: zeros (-point) ++ digits
  else if point < digits.length then
    digits.take point.toNat ++ '.' :: digits.drop point.toNat
  else digits ++ zeros (point - digits.length) ++ ['.', '0']

/-- Digits with the point behind the first one, and the exponent of that first digit. -/
def scientific (digits : List Char) (leading : Int) : List Char :=
  let tail := digits.drop 1
  let fraction := if tail.isEmpty then [] else '.' :: tail
  let sign := if leading < 0 then '-' else '+'
  digits.take 1 ++ fraction ++ 'e' :: sign :: Nat.toDigits 10 leading.natAbs

/-- A decimal in writing. -/
def text (style : Style) (d : Decimal) : String :=
  let digits := Nat.toDigits 10 d.coefficient
  let point := digits.length + d.exponent
  let unsigned :=
    if style.lowest < point ∧ point ≤ style.highest + 1 then positional digits point
    else scientific digits (point - 1)
  String.ofList (if d.negative then '-' :: unsigned else unsigned)

end Decimal

end Multiway
