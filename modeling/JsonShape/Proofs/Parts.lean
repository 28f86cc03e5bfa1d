import JsonShape.Proofs.Induction
import JsonShape.Proofs.Outcome

/-!
The parts of arrays and records. A list of items succeeds with one result for each item, a list of fields
with one for each field, and either fails as its first failing part does. Merging the results of fields
into properties changes just the properties that have a present result.
-/

namespace JsonShape.Schema

variable {child : Run} {own : Entries Value}

theorem validateItems_eq_ok_iff {item : Schema} {items new : List Value} :
    validateItems child item items = .ok new ↔
      new.length = items.length ∧
        ∀ (i : Nat) v, items[i]? = some v →
          ∃ r, child item (some v) = .ok r ∧ new[i]? = some (r.getD .null) := by
  have part : ∀ v i w, Outcome.under (.index i) ((child item (some v)).map fun r => r.getD .null) =
      .ok w ↔ ∃ r, child item (some v) = .ok r ∧ r.getD .null = w := fun v i w =>
    (Outcome.under_eq_ok_iff _ _ _).trans (Outcome.map_eq_ok_iff _ _ _)
  simp only [validateItems, Outcome.mapM_eq_ok_iff, List.length_zipIdx, List.getElem?_zipIdx,
    Option.map_eq_some_iff, Nat.zero_add]
  refine and_congr_right fun _ => ⟨fun h i v hv => ?_, ?_⟩
  · obtain ⟨w, hw, hn⟩ := h i (v, i) ⟨v, hv, rfl⟩
    obtain ⟨r, hr, rfl⟩ := (part v i w).1 hw
    exact ⟨r, hr, hn⟩
  · rintro h i _ ⟨v, hv, rfl⟩
    obtain ⟨r, hr, hn⟩ := h i v hv
    exact ⟨_, (part v i _).2 ⟨r, hr, rfl⟩, hn⟩

theorem ne_nil_of_validateItems {item : Schema} {items new : List Value}
    (h : validateItems child item items = .ok new) (nonempty : items ≠ []) : new ≠ [] := by
  rintro rfl
  have length := (validateItems_eq_ok_iff.1 h).1
  exact nonempty (List.eq_nil_of_length_eq_zero length.symm)

theorem validateItems_eq_error_iff {item : Schema} {items : List Value} {f : Failure} :
    validateItems child item items = .error f ↔
      ∃ (i : Nat) (v : Value) (g : Failure), items[i]? = some v ∧
        child item (some v) = .error g ∧ f = g.within (.index i) ∧
        ∀ j < i, ∀ w, items[j]? = some w → ∃ r, child item (some w) = .ok r := by
  have failed : ∀ v i, Outcome.under (.index i) ((child item (some v)).map fun r => r.getD .null) =
      .error f ↔ ∃ g, child item (some v) = .error g ∧ f = g.within (.index i) := fun v i => by
    simp only [Outcome.under_eq_error_iff, Outcome.map_eq_error_iff]
  have passed : ∀ v i, (∃ w, Outcome.under (.index i)
      ((child item (some v)).map fun r => r.getD .null) = .ok w) ↔
        ∃ r, child item (some v) = .ok r := fun v i => by
    simp only [Outcome.under_eq_ok_iff, Outcome.map_eq_ok_iff]
    constructor
    · intro h
      obtain ⟨_, r, hr, -⟩ := h
      exact ⟨r, hr⟩
    · intro h
      obtain ⟨r, hr⟩ := h
      exact ⟨_, r, hr, rfl⟩
  simp only [validateItems, Outcome.mapM_eq_error_iff, List.getElem?_zipIdx,
    Option.map_eq_some_iff, Nat.zero_add]
  constructor
  · rintro ⟨i, _, ⟨v, hv, rfl⟩, hf, before⟩
    obtain ⟨g, hg, rfl⟩ := (failed v i).1 hf
    exact ⟨i, v, g, hv, hg, rfl, fun j hj w hw => (passed w j).1 (before j hj _ ⟨w, hw, rfl⟩)⟩
  · rintro ⟨i, v, g, hv, hg, rfl, before⟩
    refine ⟨i, _, ⟨v, hv, rfl⟩, (failed v i).2 ⟨g, hg, rfl⟩, ?_⟩
    rintro j hj _ ⟨w, hw, rfl⟩
    exact (passed w j).2 (before j hj w hw)

theorem validateFields_cons {name : String} {schema : Schema} {fields : Entries Schema} :
    validateFields child own ((name, schema) :: fields) =
      match child schema (own.lookup name) with
      | .error f => .error (f.within (.field name))
      | .ok r => (validateFields child own fields).map fun results => (name, r) :: results := by
  unfold validateFields
  rw [Outcome.mapM_cons]
  dsimp only
  cases child schema (own.lookup name) <;> rfl

theorem names_results {fields : Entries Schema} {results : List (String × Slot)}
    (h : validateFields child own fields = .ok results) :
    Entries.names results = Entries.names fields := by
  induction fields generalizing results with
  | nil =>
      cases h
      rfl
  | cons d fields ih =>
      rw [validateFields_cons] at h
      cases hr : child d.2 (own.lookup d.1) with
      | error f => simp [hr] at h
      | ok r =>
          rw [hr] at h
          obtain ⟨rest, hrest, rfl⟩ := (Outcome.map_eq_ok_iff _ _ _).1 h
          simpa [Entries.names] using ih hrest

theorem lookup_results {fields : Entries Schema} {results : List (String × Slot)} {name : String}
    {schema : Schema} (h : validateFields child own fields = .ok results)
    (hs : fields.lookup name = some schema) :
    ∃ r, child schema (own.lookup name) = .ok r ∧ results.lookup name = some r := by
  induction fields generalizing results with
  | nil => simp at hs
  | cons d fields ih =>
      rw [validateFields_cons] at h
      rw [Entries.lookup_cons] at hs
      cases hr : child d.2 (own.lookup d.1) with
      | error f => simp [hr] at h
      | ok r =>
          rw [hr] at h
          obtain ⟨rest, hrest, rfl⟩ := (Outcome.map_eq_ok_iff _ _ _).1 h
          by_cases hn : name = d.1
          · have hd : d.2 = schema := by simpa [hn] using hs
            exact ⟨r, by rw [hn, ← hd, hr], by simp [hn]⟩
          · obtain ⟨r', hr', hl⟩ := ih hrest (by simpa [hn] using hs)
            exact ⟨r', hr', by simpa [hn] using hl⟩

theorem validateFields_of_each {own' : Entries Value} {fields : Entries Schema}
    {results : List (String × Slot)}
    (each : ∀ d ∈ fields, ∀ r, child d.2 (own.lookup d.1) = .ok r →
      child d.2 (own'.lookup d.1) = .ok r)
    (h : validateFields child own fields = .ok results) :
    validateFields child own' fields = .ok results := by
  induction fields generalizing results with
  | nil => exact h
  | cons d fields ih =>
      rw [validateFields_cons] at h ⊢
      cases hr : child d.2 (own.lookup d.1) with
      | error f => simp [hr] at h
      | ok r =>
          rw [hr] at h
          obtain ⟨rest, hrest, rfl⟩ := (Outcome.map_eq_ok_iff _ _ _).1 h
          have tail := ih (fun e he => each e (List.mem_cons_of_mem d he)) hrest
          rw [each d (List.mem_cons_self ..) r hr, tail]
          rfl

theorem validateFields_eq_error_iff {fields : Entries Schema} {f : Failure} :
    validateFields child own fields = .error f ↔
      ∃ (i : Nat) (d : String × Schema) (g : Failure), fields[i]? = some d ∧
        child d.2 (own.lookup d.1) = .error g ∧ f = g.within (.field d.1) ∧
        ∀ j < i, ∀ e, fields[j]? = some e → ∃ r, child e.2 (own.lookup e.1) = .ok r := by
  simp only [validateFields, Outcome.mapM_eq_error_iff, Outcome.under_eq_error_iff,
    Outcome.under_eq_ok_iff, Outcome.map_eq_error_iff, Outcome.map_eq_ok_iff]
  constructor
  · rintro ⟨i, d, hd, ⟨g, hg, rfl⟩, before⟩
    refine ⟨i, d, g, hd, hg, rfl, fun j hj e he => ?_⟩
    obtain ⟨_, r, hr, -⟩ := before j hj e he
    exact ⟨r, hr⟩
  · rintro ⟨i, d, g, hd, hg, rfl, before⟩
    refine ⟨i, d, hd, ⟨g, hg, rfl⟩, fun j hj e he => ?_⟩
    obtain ⟨r, hr⟩ := before j hj e he
    exact ⟨(e.1, r), r, hr, rfl⟩

theorem lookup_merge {results : List (String × Slot)} (distinct : (Entries.names results).Nodup)
    (own : Entries Value) (key : String) :
    (merge own results).lookup key = ((results.lookup key).join).or (own.lookup key) := by
  induction results generalizing own with
  | nil => simp [merge]
  | cons e results ih =>
      obtain ⟨name, r⟩ := e
      obtain ⟨hn, hd⟩ := List.nodup_cons.1 distinct
      have hnone : results.lookup name = none := (Entries.lookup_eq_none_iff _ _).2 hn
      cases r with
      | none =>
          have hm : merge own ((name, none) :: results) = merge own results := rfl
          rw [hm, ih hd, Entries.lookup_cons]
          by_cases hk : key = name <;> simp [hk, hnone]
      | some v =>
          have hm : merge own ((name, some v) :: results) =
              merge (Entries.insert own name v) results := rfl
          rw [hm, ih hd, Entries.lookup_cons, Entries.lookup_insert]
          by_cases hk : key = name <;> simp [hk, hnone]

theorem merge_eq_self {results : List (String × Slot)}
    (same : ∀ e ∈ results, ∀ v, e.2 = some v → own.lookup e.1 = some v) :
    merge own results = own := by
  induction results with
  | nil => rfl
  | cons e results ih =>
      have rest := ih fun d hd => same d (by simp [hd])
      obtain ⟨name, r⟩ := e
      cases r with
      | none => exact rest
      | some v =>
          have hv : own.lookup name = some v := same (name, some v) (by simp) v rfl
          have hm : merge own ((name, some v) :: results) =
              merge (Entries.insert own name v) results := rfl
          rw [hm, Entries.insert_of_lookup hv, rest]

theorem mem_of_mem_merge {results : List (String × Slot)} {e : String × Value}
    (h : e ∈ merge own results) : e ∈ own ∨ (e.1, some e.2) ∈ results := by
  induction results generalizing own with
  | nil => exact .inl h
  | cons d results ih =>
      obtain ⟨name, r⟩ := d
      cases r with
      | none => exact (ih h).imp_right (List.mem_cons_of_mem _)
      | some v =>
          have hm : e ∈ merge (Entries.insert own name v) results := h
          rcases ih hm with h | h
          · rcases Entries.mem_of_mem_insert h with rfl | h
            · exact .inr (List.mem_cons_self ..)
            · exact .inl h
          · exact .inr (List.mem_cons_of_mem _ h)

end JsonShape.Schema
