import JsonShape.Validation.Value

/-!
Validation through a registry: a value against the schema bound to a name, with the registry at hand for
references. The first look-up costs no level.
-/

namespace JsonShape.Registry

def context (r : Registry) (limit : Nat) : Context := { registry := some r, maxDepth := limit }

def find (r : Registry) (name : String) : Except Refusal Schema :=
  match r.get? name with
  | some schema => .ok schema
  | none => .error (.unbound name)

/-- What a schema makes of a value, an absent result read as null. -/
def accept (r : Registry) (limit : Nat) (schema : Schema) (v : Value) : Outcome Value :=
  (schema.validate (r.context limit) (some v)).map fun slot => slot.getD .null

def validate (r : Registry) (limit : Nat) (name : String) (v : Value) :
    Except Refusal (Outcome Value) :=
  (r.find name).map fun schema => r.accept limit schema v

def validateMany (r : Registry) (limit : Nat) (name : String) (vs : List Value) :
    Except Refusal (List (Outcome Value)) :=
  (r.find name).map fun schema => vs.map (r.accept limit schema)

theorem find_eq_ok_iff (r : Registry) (name : String) (schema : Schema) :
    r.find name = .ok schema ↔ r.get? name = some schema := by
  unfold find
  split
  next h => simp [h]
  next h => simp [h]

theorem find_eq_error_iff (r : Registry) (name : String) (e : Refusal) :
    r.find name = .error e ↔ r.get? name = none ∧ e = .unbound name := by
  unfold find
  split
  next h => simp [h]
  next h => simp [h, eq_comm]

section Bound

variable {r : Registry} {name : String} {schema : Schema}

theorem validate_of_get? (h : r.get? name = some schema) (limit : Nat) (v : Value) :
    r.validate limit name v = .ok (r.accept limit schema v) := by
  simp [validate, (find_eq_ok_iff r name schema).2 h, Except.map]

theorem validateMany_of_get? (h : r.get? name = some schema) (limit : Nat) (vs : List Value) :
    r.validateMany limit name vs = .ok (vs.map (r.accept limit schema)) := by
  simp [validateMany, (find_eq_ok_iff r name schema).2 h, Except.map]

theorem validate_of_unbound (h : r.get? name = none) (limit : Nat) (v : Value) :
    r.validate limit name v = .error (.unbound name) := by
  simp [validate, (find_eq_error_iff r name _).2 ⟨h, rfl⟩, Except.map]

theorem validateMany_of_unbound (h : r.get? name = none) (limit : Nat) (vs : List Value) :
    r.validateMany limit name vs = .error (.unbound name) := by
  simp [validateMany, (find_eq_error_iff r name _).2 ⟨h, rfl⟩, Except.map]

end Bound

end JsonShape.Registry
