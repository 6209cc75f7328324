import Multiway.Decimal.Basic

/-!
The shortest decimal of a binary floating point number.

A finite number is `m * 2 ^ q`. Every real number nearer to it than to its neighbours rounds to it,
and so do the two halfway points when `m` is even. Among the decimals in this interval those with
the fewest digits are wanted, and of them the nearest. Tried from the coarsest power of ten
downwards, a grid of multiples has a point in the interval exactly when one of the two grid points
around the number is in it, so only those two need a look.

All arithmetic is on natural numbers. The interval is measured in quarters of the last binary
place, because below a power of two the neighbour is only half as far away.
-/

namespace Multiway.Decimal

/-- A finite binary floating point number `significand * 2 ^ exponent`, with its sign. -/
structure Binary where
  negative : Bool
  significand : Nat
  exponent : Int
deriving DecidableEq, Repr

/-- The parts of a number of 64 bits: a sign, eleven bits of exponent, and 52 bits of significand
below a leading one that is not stored, except for the numbers of the lowest exponent. -/
def Binary.ofBits (bits : UInt64) : Binary :=
  let field := bits.toNat / Nat.pow 2 52 % Nat.pow 2 11
  let stored := bits.toNat % Nat.pow 2 52
  { negative := Nat.pow 2 63 ≤ bits.toNat
    significand := if field = 0 then stored else Nat.pow 2 52 + stored
    exponent := (max field 1 : Nat) - 1075 }

/-- The interval of reals that round to a number, in quarters of its last binary place. -/
structure Interval where
  low : Nat
  value : Nat
  high : Nat
  /-- Whether the two ends belong to it. -/
  closed : Bool
deriving DecidableEq, Repr

/-- The interval around a number. -/
def Binary.interval (b : Binary) : Interval :=
  { low := 4 * b.significand -
      (if b.significand = Nat.pow 2 52 ∧ -1074 < b.exponent then 1 else 2)
    value := 4 * b.significand
    high := 4 * b.significand + 2
    closed := b.significand % 2 = 0 }

/-- The better of the two multiples of `10 ^ exponent` around a number, if one of them lies in the
interval. Of two equally near ones it is the even one. -/
def nearestMultiple (i : Interval) (unit exponent : Int) : Option Nat :=
  let up := Nat.pow 2 unit.toNat * Nat.pow 10 (-exponent).toNat
  let down := Nat.pow 2 (-unit).toNat * Nat.pow 10 exponent.toNat
  let inside (d : Nat) : Bool :=
    if i.closed then i.low * up ≤ d * down && d * down ≤ i.high * up
    else i.low * up < d * down && d * down < i.high * up
  let below := i.value * up / down
  let above := below + 1
  let toBelow := i.value * up - below * down
  let toAbove := above * down - i.value * up
  match inside below, inside above with
  | true, true =>
    if toBelow < toAbove ∨ (toBelow = toAbove ∧ below % 2 = 0) then some below else some above
  | true, false => some below
  | false, true => some above
  | false, false => none

/-- The first power of ten, from `exponent` downwards, with a multiple in the interval. -/
def firstGrid (i : Interval) (unit : Int) : Nat → Int → Nat × Int
  | 0, exponent => (0, exponent)
  | steps + 1, exponent =>
    match nearestMultiple i unit exponent with
    | some coefficient => (coefficient, exponent)
    | none => firstGrid i unit steps (exponent - 1)

/-- The shortest decimal that rounds to a number. The search begins at a power of ten above the
number, and seventeen digits are always enough. -/
def Binary.shortest (b : Binary) : Decimal :=
  if b.significand = 0 then ⟨b.negative, 0, 0⟩
  else
    let start := (Nat.log2 b.significand + 1 + b.exponent) * 30103 / 100000 + 1
    let (coefficient, exponent) := firstGrid b.interval (b.exponent - 2) 22 start
    ⟨b.negative, coefficient, exponent⟩

/-- The shortest decimal that rounds to a finite floating point number. -/
def ofFloat (x : Float) : Decimal := (Binary.ofBits x.toBits).shortest

example : (Binary.ofBits 0x3ff8000000000000).shortest = ⟨false, 15, -1⟩ := by decide +kernel

example : (Binary.ofBits 1).shortest = ⟨false, 5, -324⟩ := by decide +kernel

end Multiway.Decimal
