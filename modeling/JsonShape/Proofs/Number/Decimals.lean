import JsonShape.Proofs.Number.Nearest
import Mathlib.Tactic.Ring

/-!
Decimals that are read exactly. A number of at most 53 significant bits is its own nearest, and a common factor of
numerator and denominator rounds away nothing. So a significand of 53 bits times a power of ten that is itself a
double is rounded once only, and its double is the nearest.
-/

namespace JsonShape

namespace Rounding

theorem quotient_mul_right (num den : Nat) {k : Nat} (pos : 0 < k) :
    quotient (num * k) (den * k) = quotient num den := by
  have twice : 2 * (num % den * k) = 2 * (num % den) * k := (Nat.mul_assoc ..).symm
  unfold quotient
  simp only [Nat.mul_div_mul_right _ _ pos, Nat.mul_mod_mul_right, twice, Nat.mul_lt_mul_right pos,
    Nat.mul_left_inj pos.ne']

theorem quotient_multiple (k : Nat) {den : Nat} (pos : 0 < den) : quotient (k * den) den = k := by
  have whole := quotient_mul_right k 1 pos
  rw [Nat.one_mul] at whole
  rw [whole]
  simp [quotient, Nat.mod_one]

theorem nearest_mul_right (num den : Nat) {k : Nat} (pos : 0 < k) :
    nearest (num * k) (den * k) = nearest num den := by
  have scaled : ∀ s, quotient (num * k) (den * k * twoPow s) = quotient num (den * twoPow s) := by
    intro s
    rw [Nat.mul_right_comm, quotient_mul_right _ _ pos]
  unfold nearest
  simp only [Nat.mul_div_mul_right _ _ pos, scaled]

theorem value_nearest_of_multiple {n k : Nat} (onGrid : n = k * spacing n) : (nearest n 1).value = n := by
  have exact := quotient_multiple k (spacing_pos n)
  rw [← onGrid] at exact
  rw [value_nearest_one, exact, ← onGrid]

theorem value_nearest_of_bits {m : Nat} (bits : m < twoPow 53) (k : Nat) :
    (nearest (m * twoPow k) 1).value = m * twoPow k := by
  have grid : excess (m * twoPow k) ≤ k := by
    by_cases zero : m * twoPow k = 0
    · simp [zero, excess]
    · have log : (m * twoPow k).log2 < 53 + k := by
        rw [log2_lt_iff zero, twoPow_add]
        exact Nat.mul_lt_mul_of_pos_right bits (twoPow_pos k)
      unfold excess
      omega
  obtain ⟨d, hd⟩ := Nat.exists_eq_add_of_le' grid
  refine @value_nearest_of_multiple _ (m * twoPow d) ?_
  rw [spacing, Nat.mul_assoc, ← twoPow_add, ← hd]

end Rounding

namespace Double

theorem value_nearest_whole {n : Nat} (bits : n < twoPow 53) : (nearest n 1).value = n * unitsPerOne :=
  Rounding.value_nearest_of_bits bits 1074

theorem tenPow_eq (exponent : Nat) : tenPow exponent = 5 ^ exponent * twoPow exponent := by
  show 10 ^ exponent = 5 ^ exponent * 2 ^ exponent
  rw [← Nat.mul_pow]

theorem value_tenPower {exponent : Nat} (small : exponent ≤ 22) :
    (tenPower exponent).value = tenPow exponent * unitsPerOne := by
  have bits : 5 ^ exponent < twoPow 53 :=
    Nat.lt_of_le_of_lt (Nat.pow_le_pow_right (by decide) small) (by decide)
  rw [tenPower, nearest, tenPow_eq, unitsPerOne, Nat.mul_assoc, ← twoPow_add]
  exact Rounding.value_nearest_of_bits bits (exponent + 1074)

/-- Where the significand and the power of ten are doubles, only their product or quotient is rounded. -/
theorem approximate_of_exact {significand : Nat} {exponent : Int} (bits : significand < twoPow 53)
    (small : exponent.natAbs ≤ 22) :
    approximate significand exponent =
      nearest (significand * tenPow exponent.toNat) (tenPow (-exponent).toNat) := by
  have cancel : ∀ num den, Rounding.nearest (num * unitsPerOne) (den * unitsPerOne) = Rounding.nearest num den :=
    fun num den => Rounding.nearest_mul_right num den (twoPow_pos 1074)
  have one : tenPow 0 = 1 := rfl
  unfold approximate
  split
  next up =>
    have power : (-exponent).toNat = 0 := by omega
    have term : significand * unitsPerOne * (tenPow exponent.toNat * unitsPerOne) =
        significand * tenPow exponent.toNat * unitsPerOne * unitsPerOne := by ring
    have product := cancel (significand * tenPow exponent.toNat * unitsPerOne) 1
    rw [Nat.one_mul] at product
    rw [Double.product, value_nearest_whole bits, value_tenPower (by omega), term, product, power, one, nearest]
  next down =>
    have power : exponent.toNat = 0 := by omega
    rw [if_pos (by unfold greatestTenPower; omega), quotient, value_nearest_whole bits,
      value_tenPower (by omega), nearest, cancel, power, one, Nat.mul_one, nearest]

example : approximate 15 (-22) = nearest 15 (tenPow 22) := by decide +kernel

example : approximate 15 (-25) ≠ nearest 15 (tenPow 25) := by decide +kernel

end Double

end JsonShape
