import JsonShape.Number.Rounding

/-!
Finite double-precision numbers, as a sign and a magnitude counted in units of 2^-1074, the least
positive double. Every finite double is a whole number of units, so comparison is exact.
-/

namespace JsonShape

/-- A finite double: sign and magnitude in units of 2^-1074. The greatest scale is 2045, so the
greatest double is (2^53 - 1) * 2^971. Zero has both signs. -/
structure Double where
  negative : Bool
  magnitude : Rounding.Scaled
  scale_le : magnitude.scale ≤ 2045
deriving DecidableEq

namespace Double

/-- Units in one: the least positive double is 2^-1074. -/
def unitsPerOne : Nat := twoPow 1074

def units (d : Double) : Int :=
  if d.negative then -(d.magnitude.value : Int) else d.magnitude.value

def zero (negative : Bool) : Double := ⟨negative, ⟨0, 0, by decide, .inl rfl⟩, by decide⟩

theorem units_zero (negative : Bool) : (zero negative).units = 0 := by
  cases negative <;> rfl

/-- The magnitude nearest to `num / den`; halfway between two, the one with the even mantissa. -/
def nearest (num den : Nat) : Rounding.Scaled := Rounding.nearest (num * unitsPerOne) den

def product (a b : Rounding.Scaled) : Rounding.Scaled := Rounding.nearest (a.value * b.value) unitsPerOne

def quotient (a b : Rounding.Scaled) : Rounding.Scaled := nearest a.value b.value

def tenPower (exponent : Nat) : Rounding.Scaled := nearest (tenPow exponent) 1

def greatestTenPower : Nat := 308

/-- `significand * 10^exponent` computed in doubles, each step rounding: the significand is multiplied
or divided by a power of ten, and divided twice when the power is beyond the greatest one. The result
need not be the double nearest to the decimal. -/
def approximate (significand : Nat) (exponent : Int) : Rounding.Scaled :=
  let s := nearest significand 1
  let down := (-exponent).toNat
  if 0 ≤ exponent then product s (tenPower exponent.toNat)
  else if down ≤ greatestTenPower then quotient s (tenPower down)
  else quotient (quotient s (tenPower greatestTenPower)) (tenPower (down - greatestTenPower))

def ofMagnitude? (negative : Bool) (magnitude : Rounding.Scaled) : Option Double :=
  if h : magnitude.scale ≤ 2045 then some ⟨negative, magnitude, h⟩ else none

/-- The double that stands for `significand * 10^exponent`, for a significand below 2^64. Two divisions
by the greatest power of ten leave nothing of it. -/
def ofDecimal? (negative : Bool) (significand : Nat) (exponent : Int) : Option Double :=
  if significand = 0 ∨ exponent < -616 then some (zero negative)
  else if 308 < exponent then none
  else ofMagnitude? negative (approximate significand exponent)

end Double

end JsonShape
