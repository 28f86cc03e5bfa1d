import JsonShape.Proofs.Preservation
import JsonShape.Proofs.Value.Equality
import JsonShape.Proofs.Views
import JsonShape.Registry.Validation

/-!
Members stay in order. A record writes its results over members that are in increasing order, be they its own or
the items of an array under their indices. So values that are read from text, which are well-formed, stay so in
both views and in every reply of a registry.
-/

namespace JsonShape

theorem Value.wellFormed_properties {v : Value} {own : Entries Value} (h : v.WellFormed)
    (properties : v.properties? = some own) :
    Entries.Increasing own ∧ ∀ e ∈ own, e.2.WellFormed := by
  cases v with
  | object members =>
      cases properties
      exact ⟨h.1, (wellFormedMembers_iff _).1 h.2⟩
  | array items =>
      cases properties
      refine ⟨Entries.increasing_sorted _, fun e he => ?_⟩
      obtain ⟨⟨w, i⟩, mem, rfl⟩ := List.mem_map.1 (Entries.mem_of_mem_sorted he)
      exact (wellFormedItems_iff items).1 h w (List.fst_mem_of_mem_zipIdx mem)
  | _ => cases properties

namespace Schema

variable {c : Context} {v : Value} {schema : Schema}

theorem increasing_merge {own : Entries Value} (h : Entries.Increasing own)
    (results : List (String × Slot)) : Entries.Increasing (merge own results) := by
  induction results generalizing own with
  | nil => exact h
  | cons e results ih =>
      obtain ⟨name, r⟩ := e
      cases r with
      | none => exact ih h
      | some v => exact ih (Entries.increasing_insert h name v)

theorem inherited_wellFormed : Inherited fun new old => old.WellFormed → new.WellFormed where
  refl _ := id
  trans hab hbc := hab ∘ hbc
  array {new old} length items h := by
    rw [Value.WellFormed, Value.wellFormedItems_iff] at h ⊢
    intro v mem
    obtain ⟨i, hv⟩ := List.mem_iff_getElem?.1 mem
    have lt : i < old.length := length ▸ (List.getElem?_eq_some_iff.1 hv).1
    exact items i v old[i] hv (List.getElem?_eq_getElem lt) (h _ (List.getElem_mem lt))
  record {v own results} properties _ kept h := by
    obtain ⟨increasing, each⟩ := Value.wellFormed_properties h properties
    refine ⟨increasing_merge increasing results, (Value.wellFormedMembers_iff _).2 fun e mem => ?_⟩
    obtain unwritten | written := mem_of_mem_merge mem
    · exact each e unwritten
    · have related := kept _ written
      cases hw : own.lookup e.1 with
      | none => simp [hw] at related
      | some w =>
          rw [hw, Option.rel_some_some] at related
          exact related (each (e.1, w) (Entries.mem_of_lookup hw))

theorem wellFormed_of_validate {w : Value} (h : schema.validate c (some v) = .ok (some w))
    (well : v.WellFormed) : w.WellFormed :=
  Option.rel_some_some.1 (inherited_wellFormed.of_validate h) well

/-- The results of both views list their members in increasing order when the input does. -/
theorem results_wellFormed (schema : Schema) (c : Context) (well : v.WellFormed) :
    (∀ r, schema.validate c (some v) = .ok r → ∃ w, r = some w ∧ w.WellFormed) ∧
      ∀ t, schema.interpret c (some v) = .ok t → t.erase.WellFormed := by
  have value : ∀ r, schema.validate c (some v) = .ok r → ∃ w, r = some w ∧ w.WellFormed := by
    intro r run
    obtain ⟨w, rfl, -⟩ := present_of_validate run
    exact ⟨w, rfl, wellFormed_of_validate run well⟩
  refine ⟨value, fun t typed => ?_⟩
  obtain ⟨r, run, erased⟩ := validate_of_interpret typed
  obtain ⟨w, rfl, result⟩ := value r run
  rw [erased]
  exact result

end Schema

namespace Registry

variable {r : Registry} {limit : Nat} {name : String}

theorem wellFormed_of_accept {schema : Schema} {v w : Value} (h : r.accept limit schema v = .ok w)
    (well : v.WellFormed) : w.WellFormed := by
  obtain ⟨slot, run, rfl⟩ := (Outcome.map_eq_ok_iff _ _ _).1 h
  obtain ⟨u, rfl, result⟩ := (Schema.results_wellFormed schema _ well).1 slot run
  exact result

theorem wellFormed_of_validate {v w : Value} (h : r.validate limit name v = .ok (.ok w))
    (well : v.WellFormed) : w.WellFormed := by
  cases bound : r.get? name with
  | none =>
      rw [validate_of_unbound bound] at h
      cases h
  | some schema =>
      rw [validate_of_get? bound] at h
      exact wellFormed_of_accept (Except.ok.inj h) well

theorem wellFormed_of_validateMany {vs : List Value} {outcomes : List (Outcome Value)}
    (h : r.validateMany limit name vs = .ok outcomes) (well : ∀ v ∈ vs, v.WellFormed) {w : Value}
    (mem : .ok w ∈ outcomes) : w.WellFormed := by
  cases bound : r.get? name with
  | none =>
      rw [validateMany_of_unbound bound] at h
      cases h
  | some schema =>
      rw [validateMany_of_get? bound] at h
      cases h
      obtain ⟨v, hv, accepted⟩ := List.mem_map.1 mem
      exact wellFormed_of_accept accepted (well v hv)

end Registry

end JsonShape
