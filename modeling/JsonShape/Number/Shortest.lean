import JsonShape.Number.Double

/-!
The shortest decimal that reads back as a given positive double. The reals that round to the double
form an interval; on the grids of 1, 2, … 17 significant digits the two grid points around the double
are tried, and the first grid with a point in the interval decides. All comparisons are exact.
-/

namespace JsonShape

structure Decimal where
  digits : Nat
  power : Int
deriving DecidableEq

namespace Decimal

/-- The reals that round to one magnitude, in quarters of 2^-1074. The ends belong to it when the
mantissa is even. -/
structure Reach where
  low : Nat
  middle : Nat
  high : Nat
  closed : Bool

def reach (s : Rounding.Scaled) : Reach where
  low := 4 * s.value -
    (if s.mantissa = twoPow 52 ∧ 0 < s.scale then twoPow s.scale else 2 * twoPow s.scale)
  middle := 4 * s.value
  high := 4 * s.value + 2 * twoPow s.scale
  closed := s.mantissa % 2 = 0

namespace Reach

def factor (power : Int) : Nat := tenPow (-power).toNat

def step (power : Int) : Nat := 4 * Double.unitsPerOne * tenPow power.toNat

def contains (r : Reach) (power : Int) (k : Nat) : Bool :=
  let point := k * step power
  let low := r.low * factor power
  let high := r.high * factor power
  if r.closed then low ≤ point && point ≤ high else low < point && point < high

/-- The point of the grid `10^power` that stands for the middle: of its two neighbours the one
inside, the nearer if both are, the even one if they are equally near. -/
def pick? (r : Reach) (power : Int) : Option Nat :=
  let num := r.middle * factor power
  let below := num / step power
  match r.contains power below, r.contains power (below + 1) with
  | true, true => some (Rounding.quotient num (step power))
  | true, false => some below
  | false, true => some (below + 1)
  | false, false => none

end Reach

def size (n : Nat) : Nat := (Nat.toDigits 10 n).length

def leading (num den : Nat) : Int :=
  if den ≤ num then (size (num / den) : Int) - 1 else -(size ((den - 1) / num) : Int)

/-- The shortest decimal that rounds to a positive magnitude, and of those the nearest. Seventeen
digits always suffice. -/
def shortest (s : Rounding.Scaled) : Decimal :=
  let first := leading s.value Double.unitsPerOne
  let found := (List.range 17).findSome? fun (more : Nat) =>
    ((reach s).pick? (first - more)).map fun digits => (⟨digits, first - more⟩ : Decimal)
  found.getD ⟨s.value * Reach.factor (first - 16) / (Double.unitsPerOne * tenPow (first - 16).toNat),
    first - 16⟩

end Decimal

end JsonShape
