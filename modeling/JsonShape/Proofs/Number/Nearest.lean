import JsonShape.Number.Basic
import Mathlib.Data.Nat.Dist

/-!
Rounding to nearest. `nearest n 1` is no farther from `n` than any other number of at most 53 bits, and where
another is as near it has the even mantissa. These two say which number it is.
-/

namespace JsonShape.Rounding

section Quotient

variable {num den : Nat}

theorem dist_quotient (h : 0 < den) : 2 * Nat.dist (quotient num den * den) num ≤ den := by
  have upper := @quotient_mul_le num den h
  have lower := @le_quotient_mul num den h
  unfold Nat.dist
  omega

theorem le_dist_multiples {k m : Nat} (ne : k ≠ m) (den : Nat) :
    den ≤ Nat.dist (k * den) (m * den) := by
  rw [Nat.dist_mul_right]
  exact Nat.le_mul_of_pos_left den (Nat.dist_pos_of_ne ne)

theorem dist_quotient_le (h : 0 < den) (k : Nat) :
    Nat.dist (quotient num den * den) num ≤ Nat.dist (k * den) num := by
  have half := @dist_quotient num den h
  by_cases same : k = quotient num den
  · rw [same]
  · have apart := le_dist_multiples same den
    have triangle := Nat.dist.triangle_inequality (k * den) num (quotient num den * den)
    rw [Nat.dist_comm num] at triangle
    omega

theorem quotient_even (h : 0 < den) {k : Nat} (ne : k ≠ quotient num den)
    (tie : Nat.dist (k * den) num = Nat.dist (quotient num den * den) num) :
    quotient num den % 2 = 0 := by
  have half := @dist_quotient num den h
  have apart := le_dist_multiples ne den
  have triangle := Nat.dist.triangle_inequality (k * den) num (quotient num den * den)
  rw [Nat.dist_comm num] at triangle
  have exact : 2 * Nat.dist (quotient num den * den) num = den := by omega
  have whole := Nat.div_add_mod' num den
  have rest := Nat.mod_lt num h
  unfold quotient Nat.dist at exact
  unfold quotient
  dsimp only at exact ⊢
  split_ifs at exact ⊢ with near
  · omega
  · rw [Nat.add_mul, Nat.one_mul] at exact
    omega

end Quotient

/-- The step between numbers of 53 bits about `n`. -/
def spacing (n : Nat) : Nat := twoPow (excess n)

theorem spacing_pos (n : Nat) : 0 < spacing n := twoPow_pos _

theorem value_nearest_one (n : Nat) : (nearest n 1).value = quotient n (spacing n) * spacing n := by
  rw [value_nearest, Nat.div_one, Nat.one_mul, spacing]

theorem mantissa_nearest_even {n : Nat} (h : quotient n (spacing n) % 2 = 0) :
    (nearest n 1).mantissa % 2 = 0 := by
  unfold nearest
  dsimp only
  split
  · simpa [spacing] using h
  · show twoPow 52 % 2 = 0
    decide

theorem scale_nearest_le (num den : Nat) : (nearest num den).scale ≤ excess (num / den) + 1 := by
  unfold nearest
  dsimp only
  split
  · exact Nat.le_succ _
  · exact Nat.le_refl _

namespace Scaled

theorem on_grid (t : Scaled) (n : Nat) :
    (∃ k, t.value = k * spacing n) ∨ ∃ k, t.value < k * spacing n ∧ k * spacing n ≤ n := by
  by_cases h : excess n ≤ t.scale
  · refine .inl ⟨t.mantissa * twoPow (t.scale - excess n), ?_⟩
    rw [value, spacing, Nat.mul_assoc, ← twoPow_add, Nat.sub_add_cancel h]
  · refine .inr ⟨twoPow 52, ?_, ?_⟩
    · rw [spacing, ← twoPow_add]
      calc
        t.value < twoPow 53 * twoPow t.scale := Nat.mul_lt_mul_of_pos_right t.mantissa_lt (twoPow_pos _)
        _ = twoPow (53 + t.scale) := (twoPow_add 53 t.scale).symm
        _ ≤ twoPow (52 + excess n) := twoPow_le_twoPow (by omega)
    · rw [spacing, ← twoPow_add]
      exact twoPow_le_of_excess_pos (by omega)

/-- No number of at most 53 bits is nearer to `n`, and where another is as near this one has an even
mantissa. -/
structure Nearest (s : Scaled) (n : Nat) : Prop where
  least (t : Scaled) : Nat.dist s.value n ≤ Nat.dist t.value n
  even (t : Scaled) (tie : Nat.dist t.value n = Nat.dist s.value n) (ne : t.value ≠ s.value) :
    s.mantissa % 2 = 0

theorem scale_le {s t : Scaled} (h : s.value ≤ t.value) : s.scale ≤ t.scale := by
  by_contra below
  have top : t.value < twoPow 53 * twoPow t.scale :=
    Nat.mul_lt_mul_of_pos_right t.mantissa_lt (twoPow_pos _)
  have full : twoPow 52 ≤ s.mantissa := s.full.resolve_left (by omega)
  have bottom : twoPow 52 * twoPow s.scale ≤ s.value := Nat.mul_le_mul_right _ full
  have powers : twoPow 53 * twoPow t.scale ≤ twoPow 52 * twoPow s.scale := by
    rw [← twoPow_add, ← twoPow_add]
    exact twoPow_le_twoPow (by omega)
  omega

theorem mantissa_eq_of_value_eq {s t : Scaled} (h : s.value = t.value) : s.mantissa = t.mantissa := by
  have scales : s.scale = t.scale := Nat.le_antisymm (scale_le h.le) (scale_le h.ge)
  unfold value at h
  rw [scales] at h
  exact Nat.eq_of_mul_eq_mul_right (twoPow_pos _) h

theorem exists_between {s t : Scaled} (lt : s.value < t.value) (hs : s.mantissa % 2 = 0)
    (ht : t.mantissa % 2 = 0) : ∃ u : Scaled, s.value < u.value ∧ u.value < t.value := by
  have fits : s.mantissa + 1 < twoPow 53 := by
    have bound := s.mantissa_lt
    have even : twoPow 53 % 2 = 0 := by decide
    omega
  refine ⟨⟨s.mantissa + 1, s.scale, fits, s.full.imp_right Nat.le_succ_of_le⟩, ?_, ?_⟩
  · exact Nat.mul_lt_mul_of_pos_right (Nat.lt_succ_self _) (twoPow_pos _)
  · obtain ⟨d, hd⟩ := Nat.exists_eq_add_of_le (scale_le lt.le)
    have onGrid : t.value = t.mantissa * twoPow d * twoPow s.scale := by
      rw [value, hd, Nat.add_comm s.scale, twoPow_add, Nat.mul_assoc]
    have even : t.mantissa * twoPow d % 2 = 0 := by rw [Nat.mul_mod, ht, Nat.zero_mul, Nat.zero_mod]
    rw [onGrid] at lt ⊢
    have above : s.mantissa < t.mantissa * twoPow d := Nat.lt_of_mul_lt_mul_right lt
    have below : s.mantissa + 1 < t.mantissa * twoPow d := by omega
    exact Nat.mul_lt_mul_of_pos_right below (twoPow_pos _)

theorem Nearest.value_eq {s t : Scaled} {n : Nat} (h : s.Nearest n) (hs : s.mantissa % 2 = 0)
    (ht : t.mantissa % 2 = 0) (tie : Nat.dist t.value n = Nat.dist s.value n) : t.value = s.value := by
  obtain lt | eq | gt := Nat.lt_trichotomy t.value s.value
  · obtain ⟨u, above, below⟩ := exists_between lt ht hs
    have least := h.least u
    unfold Nat.dist at tie least
    omega
  · exact eq
  · obtain ⟨u, above, below⟩ := exists_between gt hs ht
    have least := h.least u
    unfold Nat.dist at tie least
    omega

end Scaled

/-- Rounding a natural to 53 bits takes the nearest, and of two that are equally near the even one. -/
theorem nearest_spec (n : Nat) : (nearest n 1).Nearest n := by
  have onGrid := @dist_quotient_le n _ (spacing_pos n)
  rw [← value_nearest_one] at onGrid
  refine ⟨fun t => ?_, fun t tie ne => ?_⟩
  · obtain ⟨k, hk⟩ | ⟨k, below, upTo⟩ := t.on_grid n
    · rw [hk]
      exact onGrid k
    · have near := onGrid k
      unfold Nat.dist at near ⊢
      omega
  · obtain ⟨k, hk⟩ | ⟨k, below, upTo⟩ := t.on_grid n
    · have other : k ≠ quotient n (spacing n) := by
        rintro rfl
        exact ne (hk.trans (value_nearest_one n).symm)
      rw [hk, value_nearest_one] at tie
      exact mantissa_nearest_even (quotient_even (spacing_pos n) other tie)
    · have near := onGrid k
      unfold Nat.dist at near tie
      omega

end JsonShape.Rounding
