import JsonShape.Number.Double

/-!
JSON numbers: whole numbers from -2^63 to 2^64 - 1 kept exactly, all else as doubles. Two numbers that
are both whole compare exactly; when a double takes part, a whole number is rounded to a double first.
-/

namespace JsonShape

/-- The whole numbers that are kept exactly, from -2^63 to 2^64 - 1. -/
def Number.InRange (n : Int) : Prop := -9223372036854775808 ≤ n ∧ n < 18446744073709551616

instance (n : Int) : Decidable (Number.InRange n) := inferInstanceAs (Decidable (_ ∧ _))

inductive Number where
  | int (value : Int) (inRange : Number.InRange value)
  | double (value : Double)
deriving DecidableEq

namespace Number

def ofInt? (n : Int) : Option Number :=
  if h : InRange n then some (.int n h) else none

/-- The count of units of 2^-1074 in the double nearest to a whole number. -/
def roundedInt (n : Int) : Int :=
  let magnitude := (Rounding.nearest (n.natAbs * Double.unitsPerOne) 1).value
  if n < 0 then -(magnitude : Int) else magnitude

def rounded : Number → Int
  | .int n _ => roundedInt n
  | .double d => d.units

def same : Number → Number → Bool
  | .int a _, .int b _ => a == b
  | a, b => a.rounded == b.rounded

theorem same_int_int {a b : Int} (ha : InRange a) (hb : InRange b) :
    same (.int a ha) (.int b hb) = true ↔ a = b := by
  simp [same]

theorem same_double_right (a : Number) (d : Double) :
    same a (.double d) = true ↔ a.rounded = d.units := by
  cases a <;> simp [same, rounded]

theorem same_double_left (d : Double) (b : Number) :
    same (.double d) b = true ↔ d.units = b.rounded := by
  cases b <;> simp [same, rounded]

theorem same_refl (a : Number) : same a a = true := by
  cases a <;> simp [same]

theorem same_comm (a b : Number) : same a b = same b a := by
  cases a <;> cases b <;> simp only [same] <;> exact Bool.beq_comm

end Number

end JsonShape
