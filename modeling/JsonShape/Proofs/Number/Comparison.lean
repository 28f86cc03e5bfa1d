import JsonShape.Proofs.Number.Nearest
import Mathlib.Algebra.Order.Field.Rat

/-!
What numbers denote, and when literals of different numbers count as equal. A whole number is compared with a
double after rounding to the nearest double; so equal numbers always count as equal, and different ones do
when one is a whole number that is no double and the other the double to which it rounds.
-/

namespace JsonShape

open Number (InRange roundedInt)

namespace Double

def distance (d : Double) (n : Int) : Nat := (d.units - n * unitsPerOne).natAbs

/-- No double is nearer to the whole number, and where another is as near this one has an even mantissa. -/
structure NearestTo (d : Double) (n : Int) : Prop where
  least (e : Double) : d.distance n ≤ e.distance n
  even (e : Double) (tie : e.distance n = d.distance n) (ne : e.units ≠ d.units) :
    d.magnitude.mantissa % 2 = 0

theorem units_cases (d : Double) :
    d.units = d.magnitude.value ∨ d.units = -(d.magnitude.value : Int) := by
  unfold units
  split
  · exact .inr rfl
  · exact .inl rfl

theorem wholeUnits_cases (n : Int) :
    0 ≤ n ∧ n * unitsPerOne = (n.natAbs * unitsPerOne : Nat) ∨
      n < 0 ∧ n * unitsPerOne = -((n.natAbs * unitsPerOne : Nat) : Int) := by
  obtain nonneg | neg := le_or_gt 0 n
  · refine .inl ⟨nonneg, ?_⟩
    rw [Int.natCast_mul, Int.natAbs_of_nonneg nonneg]
  · refine .inr ⟨neg, ?_⟩
    rw [Int.natCast_mul, Int.ofNat_natAbs_of_nonpos neg.le, Int.neg_mul, Int.neg_neg]

theorem dist_magnitude_le (d : Double) (n : Int) :
    Nat.dist d.magnitude.value (n.natAbs * unitsPerOne) ≤ d.distance n := by
  unfold distance Nat.dist
  obtain hd | hd := d.units_cases <;> obtain ⟨-, hn⟩ | ⟨-, hn⟩ := wholeUnits_cases n <;> omega

theorem scale_nearest_whole {n : Int} (h : InRange n) :
    (Rounding.nearest (n.natAbs * unitsPerOne) 1).scale ≤ 2045 := by
  refine Nat.le_trans (Rounding.scale_nearest_le _ _) ?_
  rw [Nat.div_one, Rounding.excess]
  obtain ⟨lower, upper⟩ := h
  by_cases zero : n.natAbs * unitsPerOne = 0
  · rw [zero, Nat.log2_zero]
    decide
  · have bound : n.natAbs < twoPow 65 := by
      show n.natAbs < 36893488147419103232
      omega
    have log : (n.natAbs * unitsPerOne).log2 < 65 + 1074 := by
      rw [log2_lt_iff zero, twoPow_add, unitsPerOne]
      exact Nat.mul_lt_mul_of_pos_right bound (twoPow_pos _)
    omega

def ofWhole (n : Int) (h : InRange n) : Double where
  negative := n < 0
  magnitude := Rounding.nearest (n.natAbs * unitsPerOne) 1
  scale_le := scale_nearest_whole h

section OfWhole

variable {n : Int} (h : InRange n)

theorem units_ofWhole : (ofWhole n h).units = roundedInt n := by
  simp [units, ofWhole, roundedInt]

theorem units_ofWhole_cases :
    0 ≤ n ∧ (ofWhole n h).units = (ofWhole n h).magnitude.value ∨
      n < 0 ∧ (ofWhole n h).units = -((ofWhole n h).magnitude.value : Int) := by
  obtain nonneg | neg := le_or_gt 0 n
  · exact .inl ⟨nonneg, (units_ofWhole h).trans (if_neg nonneg.not_gt)⟩
  · exact .inr ⟨neg, (units_ofWhole h).trans (if_pos neg)⟩

theorem distance_ofWhole :
    (ofWhole n h).distance n = Nat.dist (ofWhole n h).magnitude.value (n.natAbs * unitsPerOne) := by
  have sign := units_ofWhole_cases h
  have whole := wholeUnits_cases n
  unfold distance Nat.dist
  omega

theorem nearest_magnitude_ofWhole :
    (ofWhole n h).magnitude.Nearest (n.natAbs * unitsPerOne) := Rounding.nearest_spec _

theorem distance_ofWhole_le (e : Double) : (ofWhole n h).distance n ≤ e.distance n := by
  rw [distance_ofWhole h]
  exact ((nearest_magnitude_ofWhole h).least e.magnitude).trans (e.dist_magnitude_le n)

theorem units_eq_of_magnitude {e : Double} (tie : e.distance n = (ofWhole n h).distance n)
    (same : e.magnitude.value = (ofWhole n h).magnitude.value) : e.units = (ofWhole n h).units := by
  have sign := units_ofWhole_cases h
  have sign' := e.units_cases
  have whole := wholeUnits_cases n
  have least := distance_ofWhole_le h (.zero false)
  have zero := units_zero false
  unfold distance at tie least
  omega

theorem magnitude_tie {e : Double} (tie : e.distance n = (ofWhole n h).distance n) :
    Nat.dist e.magnitude.value (n.natAbs * unitsPerOne) =
      Nat.dist (ofWhole n h).magnitude.value (n.natAbs * unitsPerOne) := by
  refine Nat.le_antisymm ?_ ((nearest_magnitude_ofWhole h).least e.magnitude)
  rw [← distance_ofWhole h, ← tie]
  exact e.dist_magnitude_le n

theorem nearestTo_ofWhole : (ofWhole n h).NearestTo n := by
  refine ⟨distance_ofWhole_le h, fun e tie ne => ?_⟩
  exact (nearest_magnitude_ofWhole h).even e.magnitude (magnitude_tie h tie)
    fun same => ne (units_eq_of_magnitude h tie same)

end OfWhole

theorem mantissa_eq_of_units_eq {d e : Double} (h : d.units = e.units) :
    d.magnitude.mantissa = e.magnitude.mantissa := by
  refine Rounding.Scaled.mantissa_eq_of_value_eq ?_
  have hd := d.units_cases
  have he := e.units_cases
  omega

theorem nearestTo_iff {n : Int} (h : InRange n) (d : Double) :
    d.NearestTo n ↔ d.units = roundedInt n := by
  rw [← units_ofWhole h]
  have rounded := nearestTo_ofWhole h
  constructor
  · intro nearest
    have tie := (nearest.least (ofWhole n h)).antisymm (rounded.least d)
    by_contra ne
    have even := nearest.even (ofWhole n h) tie.symm (Ne.symm ne)
    have even' := rounded.even d tie ne
    have same := (nearest_magnitude_ofWhole h).value_eq even' even (magnitude_tie h tie)
    exact ne (units_eq_of_magnitude h tie same)
  · intro same
    have distances : d.distance n = (ofWhole n h).distance n := by rw [distance, same, distance]
    refine ⟨fun e => distances ▸ rounded.least e, fun e tie ne => ?_⟩
    rw [mantissa_eq_of_units_eq same]
    exact rounded.even e (tie.trans distances) (same ▸ ne)

theorem nearestTo_of_units_eq {d : Double} {n : Int} (h : d.units = n * unitsPerOne) :
    d.NearestTo n := by
  have zero : d.distance n = 0 := by rw [distance, h, Int.sub_self, Int.natAbs_zero]
  refine ⟨fun e => zero ▸ Nat.zero_le _, fun e tie ne => ?_⟩
  rw [zero, distance, Int.natAbs_eq_zero, Int.sub_eq_zero, ← h] at tie
  exact absurd tie ne

end Double

namespace Number

open Double (unitsPerOne)

def denoted : Number → ℚ
  | .int n _ => n
  | .double d => d.units / unitsPerOne

theorem denoted_int_eq_double_iff {n : Int} (h : InRange n) (d : Double) :
    (Number.int n h).denoted = (Number.double d).denoted ↔ d.units = n * unitsPerOne := by
  have pos : (unitsPerOne : ℚ) ≠ 0 := Nat.cast_ne_zero.2 (twoPow_pos 1074).ne'
  rw [denoted, denoted, eq_div_iff pos, eq_comm]
  exact_mod_cast Iff.rfl

theorem denoted_double_eq_iff (d e : Double) :
    (Number.double d).denoted = (Number.double e).denoted ↔ d.units = e.units := by
  have pos : (unitsPerOne : ℚ) ≠ 0 := Nat.cast_ne_zero.2 (twoPow_pos 1074).ne'
  rw [denoted, denoted, div_left_inj' pos]
  exact_mod_cast Iff.rfl

/-- The first is a whole number that is no double, and the second the double nearest to it, of two the one
with an even mantissa. -/
inductive RoundsTo : Number → Number → Prop where
  | intro {n : Int} {inRange : InRange n} {d : Double}
      (beyond : ∀ e : Double, e.units ≠ n * unitsPerOne) (nearest : d.NearestTo n) :
      RoundsTo (.int n inRange) (.double d)

theorem same_int_double_iff {n : Int} (h : InRange n) (d : Double) :
    same (.int n h) (.double d) = true ↔ d.NearestTo n := by
  rw [same_double_right, Double.nearestTo_iff h, rounded, eq_comm]

theorem same_int_double_cases {n : Int} (h : InRange n) (d : Double) :
    same (.int n h) (.double d) = true ↔
      (Number.int n h).denoted = (Number.double d).denoted ∨ (Number.int n h).RoundsTo (.double d) := by
  rw [same_int_double_iff, denoted_int_eq_double_iff]
  constructor
  · intro nearest
    by_cases exact : ∃ e : Double, e.units = n * unitsPerOne
    · obtain ⟨e, he⟩ := exact
      left
      rw [(Double.nearestTo_iff h d).1 nearest, ← he]
      exact ((Double.nearestTo_iff h e).1 (Double.nearestTo_of_units_eq he)).symm
    · exact .inr (.intro (not_exists.1 exact) nearest)
  · rintro (exact | ⟨-, nearest⟩)
    · exact Double.nearestTo_of_units_eq exact
    · exact nearest

theorem RoundsTo.denoted_ne {a b : Number} (h : a.RoundsTo b) : a.denoted ≠ b.denoted := by
  obtain ⟨beyond, -⟩ := h
  exact fun e => beyond _ ((denoted_int_eq_double_iff _ _).1 e)

theorem not_roundsTo_int {a : Number} {n : Int} {h : InRange n} : ¬a.RoundsTo (.int n h) := by
  rintro ⟨⟩

theorem not_double_roundsTo {d : Double} {b : Number} : ¬(Number.double d).RoundsTo b := by
  rintro ⟨⟩

theorem same_cases (a b : Number) :
    a.same b = true ↔ a.denoted = b.denoted ∨ a.RoundsTo b ∨ b.RoundsTo a := by
  cases a with
  | int m hm =>
      rw [or_iff_left not_roundsTo_int]
      cases b with
      | int n hn => rw [same_int_int, denoted, denoted, Rat.intCast_inj, or_iff_left not_roundsTo_int]
      | double d => exact same_int_double_cases hm d
  | double d =>
      rw [or_iff_right not_double_roundsTo]
      cases b with
      | int n hn => rw [same_comm, same_int_double_cases, eq_comm]
      | double e =>
          rw [same_double_right, rounded, denoted_double_eq_iff, or_iff_left not_double_roundsTo]

theorem same_iff_denoted_iff (a b : Number) :
    (a.same b = true ↔ a.denoted = b.denoted) ↔ ¬a.RoundsTo b ∧ ¬b.RoundsTo a := by
  rw [same_cases, ← not_or]
  constructor
  · intro law rounds
    have equal := law.1 (.inr rounds)
    obtain rounds | rounds := rounds
    · exact rounds.denoted_ne equal
    · exact rounds.denoted_ne equal.symm
  · exact fun exact => or_iff_left exact

inductive Conflates : Number → Number → Number → Prop where
  | intro {m n : Int} {hm : InRange m} {hn : InRange n} {d : Double} (ne : m ≠ n) :
      Conflates (.double d) (.int m hm) (.int n hn)

theorem rounded_eq_of_same {a b : Number} (h : a.same b = true) : a.rounded = b.rounded := by
  cases b with
  | double d => exact (same_double_right a d).1 h
  | int n hn =>
      cases a with
      | double d => exact (same_double_left d _).1 h
      | int m hm =>
          obtain rfl := (same_int_int hm hn).1 h
          rfl

theorem same_trans_iff {a b c : Number} (hab : a.same b = true) (hbc : b.same c = true) :
    a.same c = true ↔ ¬b.Conflates a c := by
  have rounds : a.rounded = c.rounded := (rounded_eq_of_same hab).trans (rounded_eq_of_same hbc)
  cases a with
  | double d => exact iff_of_true ((same_double_left d c).2 rounds) nofun
  | int m hm =>
      cases c with
      | double d => exact iff_of_true ((same_double_right _ d).2 rounds) nofun
      | int n hn =>
          rw [same_int_int]
          cases b with
          | int k hk =>
              have left := (same_int_int hm hk).1 hab
              have right := (same_int_int hk hn).1 hbc
              exact iff_of_true (left.trans right) nofun
          | double d =>
              constructor
              · rintro equal ⟨ne⟩
                exact ne equal
              · intro apart
                by_contra ne
                exact apart (.intro ne)

end Number

end JsonShape
