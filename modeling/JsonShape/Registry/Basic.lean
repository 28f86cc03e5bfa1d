import JsonShape.Schema.Basic

/-!
Registries: schemas under names, each name bound once. `unresolved` lists the names that schemas of the
registry reference and that it does not bind.
-/

namespace JsonShape

/-- Schemas under distinct names, in the order of their registration. -/
structure Registry where
  entries : Entries Schema := []
  distinct : (Entries.names entries).Nodup := by simp [Entries.names]

namespace Registry

inductive Refusal where
  | alreadyBound (name : String)
  | unbound (name : String)
deriving DecidableEq

namespace Refusal

def code : Refusal → String
  | alreadyBound _ => "duplicate_name"
  | unbound _ => "schema_not_found"

def message : Refusal → String
  | alreadyBound name => "schema '" ++ name ++ "' already registered"
  | unbound name => "schema '" ++ name ++ "' not found"

end Refusal

def empty : Registry := {}

def get? (r : Registry) (name : String) : Option Schema := r.entries.lookup name

def names (r : Registry) : List String := Entries.names r.entries

def register (r : Registry) (name : String) (schema : Schema) : Except Refusal Registry :=
  if h : name ∈ Entries.names r.entries then .error (.alreadyBound name)
  else
    .ok {
      entries := r.entries ++ [(name, schema)]
      distinct := by
        have hn := Entries.nodup_names_declare r.distinct name schema
        rwa [Entries.declare, if_neg h] at hn }

theorem get?_eq_none_iff (r : Registry) (name : String) :
    r.get? name = none ↔ name ∉ r.names := by
  simp only [get?, names, Entries.names, List.lookup_eq_none_iff, List.mem_map, not_exists, not_and,
    ne_eq, bne_iff_ne]
  exact ⟨fun h e he hn => h e he hn.symm, fun h e he hn => h e he hn.symm⟩

theorem register_eq_error_iff (r : Registry) (name : String) (schema : Schema) (e : Refusal) :
    r.register name schema = .error e ↔ name ∈ r.names ∧ e = .alreadyBound name := by
  unfold register names
  split
  next h => simp [h, eq_comm]
  next h => simp [h]

theorem register_of_bound {r : Registry} {name : String} {bound : Schema} (h : r.get? name = some bound)
    (schema : Schema) : r.register name schema = .error (.alreadyBound name) := by
  refine (register_eq_error_iff r name schema _).2 ⟨?_, rfl⟩
  refine Decidable.byContradiction fun free => ?_
  rw [(get?_eq_none_iff r name).2 free] at h
  cases h

theorem register_of_unbound {r : Registry} {name : String} (h : r.get? name = none) (schema : Schema) :
    ∃ s, r.register name schema = .ok s := by
  cases hr : r.register name schema with
  | ok s => exact ⟨s, rfl⟩
  | error e =>
      obtain ⟨bound, -⟩ := (register_eq_error_iff r name schema e).1 hr
      exact absurd bound ((get?_eq_none_iff r name).1 h)

theorem get?_eq_none_of_register {r s : Registry} {name : String} {schema : Schema}
    (h : r.register name schema = .ok s) : r.get? name = none := by
  cases hb : r.get? name with
  | none => rfl
  | some bound =>
      rw [register_of_bound hb schema] at h
      cases h

theorem get?_of_register {r s : Registry} {name : String} {schema : Schema}
    (h : r.register name schema = .ok s) (key : String) :
    s.get? key = if key = name then some schema else r.get? key := by
  unfold register at h
  split at h
  · simp at h
  next hn =>
    cases h
    have hl := Entries.lookup_declare r.entries name key schema
    rwa [Entries.declare, if_neg hn] at hl

def sortedNames (l : List String) : List String :=
  Entries.names (Entries.sorted (l.map fun name => (name, ())))

/-- The names that schemas of the registry reference and that it does not bind, in increasing order. -/
def unresolved (r : Registry) : List String :=
  sortedNames ((r.entries.flatMap fun e => e.2.references).filter (· ∉ r.names))

end Registry

end JsonShape
