import JsonShape.Proofs.Fields
import JsonShape.Proofs.Value.Navigation
import JsonShape.Proofs.Views

/-!
What a record does. It runs each of its fields on the property of that name, and reports the first failure or
returns the properties with the results in their places. So the order in which the fields are declared has a
part only in which failure is reported.
-/

namespace JsonShape.Schema

open Entries (names settled)

def SameResults (s t : Schema) (c : Context) (slot : Slot) : Prop :=
  (∀ r, s.validate c slot = .ok r ↔ t.validate c slot = .ok r) ∧
    ∀ typed, s.interpret c slot = .ok typed ↔ t.interpret c slot = .ok typed

theorem sameResults_of_values {s t : Schema} {c : Context} {slot : Slot}
    (hs : s.interpret c slot = (s.validate c slot).map fun r => .value (r.getD .null))
    (ht : t.interpret c slot = (t.validate c slot).map fun r => .value (r.getD .null))
    (same : ∀ r, s.validate c slot = .ok r ↔ t.validate c slot = .ok r) : SameResults s t c slot := by
  refine ⟨same, fun typed => ?_⟩
  rw [hs, ht, Outcome.map_eq_ok_iff, Outcome.map_eq_ok_iff]
  exact exists_congr fun r => and_congr_left fun _ => same r

theorem validate_record_of_perm {fields others : List (String × Schema)} {c : Context} {slot r : Slot}
    (perm : (Entries.standing fields).Perm (Entries.standing others))
    (h : (record fields).validate c slot = .ok r) : (record others).validate c slot = .ok r := by
  obtain ⟨v, own, rfl, properties, ⟨rfl, rfl⟩ | ⟨below, -, declared, descend, -, -⟩⟩ :=
    validate_record_eq_ok_iff.1 h
  · have none : others = [] := (Entries.standing_eq_nil_iff others).1 (List.Perm.nil_eq perm).symm
    rw [none]
    exact h
  · have declared' : others ≠ [] := by
      rintro rfl
      exact declared ((Entries.standing_eq_nil_iff fields).1 perm.eq_nil)
    obtain ⟨new, returned, rfl⟩ := (validate_record_eq_ok_iff_fields declared descend properties).1 h
    refine (validate_record_eq_ok_iff_fields declared' descend properties).2 ⟨new, fun key => ?_, rfl⟩
    rw [← fieldAt_perm perm (Entries.nodup_names_standing fields)]
    exact returned key

section Run

variable {declarations : List (String × Schema)} {c below : Context} {v : Value} {own : Entries Value}

theorem validate_record_succeeds_iff (declared : declarations ≠ []) (descend : c.descend = .ok below)
    (properties : v.properties? = some own) :
    (∃ r, (record declarations).validate c (some v) = .ok r) ↔
      ∀ d ∈ settled declarations, ∃ r, d.2.validate below (own.lookup d.1) = .ok r := by
  rw [← Entries.standing_eq_settled,
    ← exists_fieldsReturn_iff (Entries.nodup_names_standing declarations)]
  constructor
  · rintro ⟨r, h⟩
    obtain ⟨new, returned, -⟩ := (validate_record_eq_ok_iff_fields declared descend properties).1 h
    exact ⟨new, returned⟩
  · rintro ⟨new, returned⟩
    exact ⟨_, (validate_record_eq_ok_iff_fields declared descend properties).2 ⟨new, returned, rfl⟩⟩

theorem validate_record_returns (declared : declarations ≠ []) (descend : c.descend = .ok below)
    (properties : v.properties? = some own) {r : Slot}
    (h : (record declarations).validate c (some v) = .ok r) :
    ∃ new, r = some (.object new) ∧ names new = names own ∧
      (∀ d ∈ settled declarations, d.2.validate below (own.lookup d.1) = .ok (new.lookup d.1)) ∧
      ∀ key, key ∉ names declarations → new.lookup key = own.lookup key := by
  obtain ⟨new, returned, rfl⟩ := (validate_record_eq_ok_iff_fields declared descend properties).1 h
  refine ⟨_, rfl, Entries.names_overwrite _ _, fun d mem => ?_, fun key undeclared => ?_⟩
  · rw [← Entries.standing_eq_settled] at mem
    rw [returned.lookup, ← fieldAt_of_mem (Entries.nodup_names_standing declarations) mem]
    exact returned d.1
  · have undeclared' : key ∉ names (Entries.standing declarations) := by
      rwa [Entries.names_standing, List.mem_eraseDups]
    have unchanged := returned key
    rw [fieldAt_of_undeclared undeclared', validate_any] at unchanged
    rw [returned.lookup, Except.ok.inj unchanged]

/-- A record that declares fields runs each one, a level further in, on the property that its name leads to in
the input. It succeeds when all of them do, and returns an object with the names of the input's properties,
in which what a field returned stands under its name and every other property as it was. Otherwise it fails as
the first of its fields that fails. It does so in both views, and the same fields in another order have the same
results. -/
theorem record_runs_fields (declared : declarations ≠ []) (descend : c.descend = .ok below)
    (properties : v.properties? = some own) :
    let run (d : String × Schema) : Outcome Slot := d.2.validate below (v.child? (.field d.1))
    let firstFails (f : Failure) : Prop :=
      ∃ (i : Nat) (d : String × Schema) (g : Failure), (settled declarations)[i]? = some d ∧
        run d = .error g ∧ f = g.within (.field d.1) ∧
        ∀ j < i, ∀ e, (settled declarations)[j]? = some e → ∃ r, run e = .ok r
    ((∃ r, (record declarations).validate c (some v) = .ok r) ↔
        ∀ d ∈ settled declarations, ∃ r, run d = .ok r) ∧
      ((∃ t, (record declarations).interpret c (some v) = .ok t) ↔
        ∀ d ∈ settled declarations, ∃ r, run d = .ok r) ∧
      (∀ r, (record declarations).validate c (some v) = .ok r →
        ∃ new, r = some (.object new) ∧
          (record declarations).interpret c (some v) = .ok (.value (.object new)) ∧
          names new = names own ∧
          (∀ d ∈ settled declarations, run d = .ok (new.lookup d.1)) ∧
          ∀ key, key ∉ names declarations → new.lookup key = v.child? (.field key)) ∧
      (∀ f, (record declarations).validate c (some v) = .error f ↔ firstFails f) ∧
      (∀ f, (record declarations).interpret c (some v) = .error f ↔ firstFails f) ∧
      ∀ others : List (String × Schema), (settled declarations).Perm (settled others) →
        ∀ c slot, SameResults (record declarations) (record others) c slot := by
  intro run firstFails
  have child : ∀ key, v.child? (.field key) = own.lookup key := Value.child?_field properties
  have succeeds : (∃ r, (record declarations).validate c (some v) = .ok r) ↔
      ∀ d ∈ settled declarations, ∃ r, run d = .ok r := by
    simp only [run, child]
    exact validate_record_succeeds_iff declared descend properties
  have fails : ∀ f, (record declarations).validate c (some v) = .error f ↔ firstFails f := by
    intro f
    simp only [firstFails, run, child, ← Entries.standing_eq_settled]
    exact validate_record_eq_error_iff_first declared descend properties
  have typed := interpret_record c (some v) declarations
  refine ⟨succeeds, ?_, fun r h => ?_, fails, fun f => ?_, fun others perm c slot => ?_⟩
  · rw [typed, ← succeeds]
    simp [Outcome.map_eq_ok_iff]
  · obtain ⟨new, rfl, result⟩ := validate_record_returns declared descend properties h
    simp only [← child] at result
    exact ⟨new, rfl, by rw [typed, h]; rfl, result⟩
  · rw [typed, Outcome.map_eq_error_iff]
    exact fails f
  · rw [← Entries.standing_eq_settled, ← Entries.standing_eq_settled] at perm
    exact sameResults_of_values (interpret_record ..) (interpret_record ..) fun r =>
      ⟨validate_record_of_perm perm, validate_record_of_perm perm.symm⟩

end Run

theorem record_runs_fields_redeclared :
    let declarations := [("1", number), ("x", optional string), ("0", any), ("1", keyOf ["b"])]
    let others := [("0", any), ("1", keyOf ["b"]), ("x", optional string)]
    let v : Value := .array [.string "a", .string "b"]
    settled declarations = [("1", keyOf ["b"]), ("x", optional string), ("0", any)] ∧
      (record declarations).validate {} (some v) =
        .ok (some (.object [("0", .string "a"), ("1", .string "b")])) ∧
      (record declarations).interpret {} (some v) =
        .ok (.value (.object [("0", .string "a"), ("1", .string "b")])) ∧
      (keyOf ["b"]).validate { depth := 1 } (v.child? (.field "1")) = .ok (some (.string "b")) ∧
      SameResults (record declarations) (record others) {} (some v) := by
  intro declarations others v
  have descend : Context.descend {} = .ok { depth := 1 } := rfl
  have first : settled declarations = [("1", keyOf ["b"]), ("x", optional string), ("0", any)] := rfl
  have run : (record declarations).validate {} (some v) =
      .ok (some (.object [("0", .string "a"), ("1", .string "b")])) := rfl
  obtain ⟨-, -, results, -, -, orders⟩ := record_runs_fields (List.cons_ne_nil _ _ : declarations ≠ []) descend
    (rfl : v.properties? = some (Value.indexed [.string "a", .string "b"]))
  obtain ⟨new, same, typed, -, written, -⟩ := results _ run
  obtain rfl : _ = new := Value.object.inj (Option.some.inj same)
  have turned : (settled declarations).Perm (settled others) :=
    show ([("1", keyOf ["b"]), ("x", optional string)] ++ [("0", any)]).Perm _ from List.perm_append_comm
  exact ⟨first, run, typed, written ("1", keyOf ["b"]) (by rw [first]; simp), orders others turned {} (some v)⟩

end JsonShape.Schema
