/-!
Rounding a quotient of naturals to the nearest natural, a half to the even neighbour, and to the
nearest natural with at most 53 significant bits.
-/

namespace JsonShape

def twoPow (n : Nat) : Nat := Nat.pow 2 n

def tenPow (n : Nat) : Nat := Nat.pow 10 n

theorem twoPow_pos (n : Nat) : 0 < twoPow n := Nat.two_pow_pos n

theorem twoPow_add (m n : Nat) : twoPow (m + n) = twoPow m * twoPow n := Nat.pow_add 2 m n

theorem twoPow_le_twoPow {m n : Nat} (h : m ≤ n) : twoPow m ≤ twoPow n :=
  Nat.pow_le_pow_right (by decide) h

theorem lt_twoPow_log2 (n : Nat) : n < twoPow (n.log2 + 1) := Nat.lt_log2_self

theorem twoPow_log2_le {n : Nat} (h : n ≠ 0) : twoPow n.log2 ≤ n := Nat.log2_self_le h

theorem log2_lt_iff {n k : Nat} (h : n ≠ 0) : n.log2 < k ↔ n < twoPow k := Nat.log2_lt h

namespace Rounding

/-- The natural nearest to `num / den`; halfway between two, the even one. -/
def quotient (num den : Nat) : Nat :=
  let q := num / den
  let twice := 2 * (num % den)
  if twice < den ∨ (twice = den ∧ q % 2 = 0) then q else q + 1

theorem quotient_le (num den : Nat) : quotient num den ≤ num / den + 1 := by
  unfold quotient
  dsimp only
  split <;> omega

theorem le_quotient (num den : Nat) : num / den ≤ quotient num den := by
  unfold quotient
  dsimp only
  split <;> omega

theorem quotient_mul_le {num den : Nat} (h : 0 < den) :
    2 * (quotient num den * den) ≤ 2 * num + den := by
  have hd := Nat.div_add_mod num den
  have hm := Nat.mod_lt num h
  unfold quotient
  dsimp only
  split
  · rw [Nat.mul_comm (num / den) den]
    omega
  · rw [Nat.add_mul, Nat.mul_comm (num / den) den]
    omega

theorem le_quotient_mul {num den : Nat} (h : 0 < den) :
    2 * num ≤ 2 * (quotient num den * den) + den := by
  have hd := Nat.div_add_mod num den
  have hm := Nat.mod_lt num h
  unfold quotient
  dsimp only
  split
  · rw [Nat.mul_comm (num / den) den]
    omega
  · rw [Nat.add_mul, Nat.mul_comm (num / den) den]
    omega

/-- How many binary digits of the whole part `q` lie below its leading 53. -/
def excess (q : Nat) : Nat := q.log2 - 52

theorem lt_twoPow_excess (q : Nat) : q < twoPow (53 + excess q) :=
  Nat.lt_of_lt_of_le (lt_twoPow_log2 q) (twoPow_le_twoPow (by unfold excess; omega))

theorem twoPow_le_of_excess_pos {q : Nat} (h : 0 < excess q) : twoPow (52 + excess q) ≤ q := by
  have hq : q ≠ 0 := by
    intro e
    subst e
    simp [excess] at h
  have he : 52 + excess q = q.log2 := by unfold excess at h ⊢; omega
  rw [he]
  exact twoPow_log2_le hq

/-- A natural `mantissa * 2^scale` with at most 53 significant bits, so that the mantissa is below
2^53; a positive scale means that all 53 are used. -/
structure Scaled where
  mantissa : Nat
  scale : Nat
  mantissa_lt : mantissa < twoPow 53
  full : scale = 0 ∨ twoPow 52 ≤ mantissa
deriving DecidableEq

namespace Scaled

def value (s : Scaled) : Nat := s.mantissa * twoPow s.scale

end Scaled

/-- The nearest number of at most 53 significant bits to `num / den`; halfway between two, the one
with the even mantissa. -/
def nearest (num den : Nat) : Scaled :=
  let scale := excess (num / den)
  let m := quotient num (den * twoPow scale)
  if h : m < twoPow 53 then
    ⟨m, scale, h, by
      rcases Nat.eq_zero_or_pos scale with hs | hs
      · exact .inl hs
      · refine .inr (Nat.le_trans ?_ (le_quotient _ _))
        rw [← Nat.div_div_eq_div_mul, Nat.le_div_iff_mul_le (twoPow_pos _), ← twoPow_add]
        exact twoPow_le_of_excess_pos hs⟩
  else ⟨twoPow 52, scale + 1, by decide, .inr (Nat.le_refl _)⟩

theorem nearest_carry {num den : Nat}
    (h : ¬quotient num (den * twoPow (excess (num / den))) < twoPow 53) :
    quotient num (den * twoPow (excess (num / den))) = twoPow 53 := by
  have hq : num / (den * twoPow (excess (num / den))) < twoPow 53 := by
    rw [← Nat.div_div_eq_div_mul, Nat.div_lt_iff_lt_mul (twoPow_pos _), ← twoPow_add]
    exact lt_twoPow_excess _
  have := quotient_le num (den * twoPow (excess (num / den)))
  omega

theorem value_nearest (num den : Nat) :
    (nearest num den).value =
      quotient num (den * twoPow (excess (num / den))) * twoPow (excess (num / den)) := by
  unfold nearest
  dsimp only
  split
  · rfl
  next h =>
    rw [nearest_carry h]
    have h53 : twoPow 53 = twoPow 52 * twoPow 1 := twoPow_add 52 1
    simp only [Scaled.value]
    rw [h53, Nat.mul_assoc, ← twoPow_add 1, Nat.add_comm 1]

end Rounding

end JsonShape
