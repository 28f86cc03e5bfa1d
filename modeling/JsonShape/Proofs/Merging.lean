import JsonShape.Proofs.Records

/-!
Two records in a row. The second of an `and` runs on what the first returned, and that has the properties of
the input with the results of the first one's fields in their places. So the two accept what one record does
that declares the fields of both, and return the same; where they share no field they also fail alike.
-/

namespace JsonShape

namespace Entries

variable {α : Type}

theorem lookup_filter_of_notMem {known : List String} {key : String} (new : key ∉ known) (l : Entries α) :
    (l.filter fun e => e.1 ∉ known).lookup key = l.lookup key := by
  induction l with
  | nil => rfl
  | cons e l ih =>
      by_cases mem : e.1 ∈ known
      · have other : key ≠ e.1 := fun h => new (h ▸ mem)
        rw [List.filter_cons_of_neg (by simpa using mem), ih, lookup_cons, if_neg other]
      · rw [List.filter_cons_of_pos (by simpa using mem), lookup_cons, lookup_cons, ih]

end Entries

namespace Schema

open Entries (names overwrite)

def joined (schema : Schema) : Option Schema → Schema
  | some other => and schema other
  | none => schema

/-- The fields of `first`, then those of `second` that are not among them. A field of both has to pass the
schemas of both. -/
def mergedFields (first second : Entries Schema) : Entries Schema :=
  first.map (fun d => (d.1, joined d.2 (second.lookup d.1))) ++ second.filter fun d => d.1 ∉ names first

section Declared

variable {first second : Entries Schema}

theorem names_mergedFields (first second : Entries Schema) :
    names (mergedFields first second) = names first ++ (names second).filter (· ∉ names first) := by
  simp [mergedFields, names, List.filter_map, Function.comp_def]

theorem nodup_names_mergedFields (distinct : (names first).Nodup) (distinct' : (names second).Nodup) :
    (names (mergedFields first second)).Nodup := by
  rw [names_mergedFields]
  refine List.nodup_append.2 ⟨distinct, distinct'.filter _, ?_⟩
  rintro key known _ added rfl
  simp [known] at added

theorem mergedFields_eq_append (apart : ∀ key ∈ names first, key ∉ names second) :
    mergedFields first second = first ++ second := by
  have kept : first.map (fun d => (d.1, joined d.2 (second.lookup d.1))) = first.map id := by
    refine List.map_congr_left fun d mem => ?_
    rw [(Entries.lookup_eq_none_iff second d.1).2 (apart d.1 (List.mem_map_of_mem mem))]
    rfl
  have added : (second.filter fun d => d.1 ∉ names first) = second := by
    refine List.filter_eq_self.2 fun d mem => decide_eq_true fun known => ?_
    exact apart d.1 known (List.mem_map_of_mem mem)
  rw [mergedFields, kept, added, List.map_id]

theorem mergedFields_nil_left (second : Entries Schema) : mergedFields [] second = second :=
  mergedFields_eq_append nofun

theorem mergedFields_nil_right (first : Entries Schema) : mergedFields first [] = first :=
  (mergedFields_eq_append fun _ _ => List.not_mem_nil).trans (List.append_nil first)

theorem mergedFields_ne_nil (declared : first ≠ []) (second : Entries Schema) :
    mergedFields first second ≠ [] :=
  List.append_ne_nil_of_left_ne_nil (mt List.map_eq_nil_iff.1 declared) _

theorem lookup_mergedFields (first second : Entries Schema) (key : String) :
    (mergedFields first second).lookup key =
      match first.lookup key with
      | some schema => some (joined schema (second.lookup key))
      | none => second.lookup key := by
  rw [mergedFields, List.lookup_append, Entries.lookup_map_named fun name schema =>
    joined schema (second.lookup name)]
  cases absent : first.lookup key with
  | some schema => rfl
  | none => exact Entries.lookup_filter_of_notMem ((Entries.lookup_eq_none_iff first key).1 absent) second

theorem validate_fieldAt_mergedFields {c : Context} {slot r : Slot} (key : String) :
    (fieldAt (mergedFields first second) key).validate c slot = .ok r ↔
      ∃ mid, (fieldAt first key).validate c slot = .ok mid ∧ (fieldAt second key).validate c mid = .ok r := by
  simp only [fieldAt, lookup_mergedFields]
  cases first.lookup key <;> cases second.lookup key <;> simp [joined, validate_and_eq_ok_iff]

end Declared

section Apart

variable {child : Run} {own : Entries Value}

theorem validateFields_append (first second : Entries Schema) :
    validateFields child own (first ++ second) =
      match validateFields child own first with
      | .error f => .error f
      | .ok results => (validateFields child own second).map fun later => results ++ later := by
  induction first with
  | nil =>
      show validateFields child own second = (validateFields child own second).map fun later => later
      cases validateFields child own second <;> rfl
  | cons d first ih =>
      rw [List.cons_append, validateFields_cons, validateFields_cons, ih]
      cases child d.2 (own.lookup d.1) with
      | error f => rfl
      | ok r =>
          cases validateFields child own first with
          | error f => rfl
          | ok results => exact Outcome.map_map ..

theorem validateFields_congr {own' : Entries Value} {fields : Entries Schema}
    (same : ∀ d ∈ fields, own.lookup d.1 = own'.lookup d.1) :
    validateFields child own fields = validateFields child own' fields := by
  induction fields with
  | nil => rfl
  | cons d fields ih =>
      rw [validateFields_cons, validateFields_cons, same d (List.mem_cons_self ..),
        ih fun e mem => same e (List.mem_cons_of_mem d mem)]

theorem merge_append (results later : List (String × Slot)) :
    merge own (results ++ later) = merge (merge own results) later := List.foldl_append

end Apart

section Run

variable {c below : Context} {v : Value} {own : Entries Value} {first second : Entries Schema} {r : Slot}

theorem fieldsReturn_mergedFields {new : String → Slot} :
    FieldsReturn below own (mergedFields first second) new ↔
      ∃ mid, FieldsReturn below own first mid ∧ FieldsReturn below (overwrite mid own) second new := by
  constructor
  · intro h
    have each : ∀ key, ∃ s, (fieldAt first key).validate below (own.lookup key) = .ok s ∧
        (fieldAt second key).validate below s = .ok (new key) := fun key =>
      (validate_fieldAt_mergedFields key).1 (h key)
    obtain ⟨mid, both⟩ := Classical.skolem.1 each
    have returned : FieldsReturn below own first mid := fun key => (both key).1
    refine ⟨mid, returned, fun key => ?_⟩
    rw [returned.lookup]
    exact (both key).2
  · rintro ⟨mid, returned, returned'⟩ key
    have later := returned' key
    rw [returned.lookup] at later
    exact (validate_fieldAt_mergedFields key).2 ⟨mid key, returned key, later⟩

theorem overwrite_of_fieldsReturn {mid new : String → Slot} (returned : FieldsReturn below own first mid)
    (returned' : FieldsReturn below (overwrite mid own) second new) :
    overwrite new (overwrite mid own) = overwrite new own := by
  rw [Entries.overwrite_overwrite]
  congr 1
  funext key
  have kept := keeps_of_validate (returned' key)
  rw [returned.lookup] at kept
  cases hn : new key with
  | some w => rfl
  | none =>
      rw [hn] at kept
      cases hm : mid key with
      | none => rfl
      | some u =>
          rw [hm] at kept
          cases kept

theorem validate_and_of_apart (declared : first ≠ []) (declared' : second ≠ [])
    (distinct : (names first).Nodup) (distinct' : (names second).Nodup)
    (apart : ∀ key ∈ names first, key ∉ names second) (descend : c.descend = .ok below)
    (properties : v.properties? = some own) :
    (and (record first) (record second)).validate c (some v) =
      (record (mergedFields first second)).validate c (some v) := by
  have all := nodup_names_mergedFields distinct distinct'
  have declaredAll : first ++ second ≠ [] := List.append_ne_nil_of_left_ne_nil declared second
  rw [mergedFields_eq_append apart] at all ⊢
  rw [validate_and, validate_record_of_runs declared descend properties,
    validate_record_of_runs declaredAll descend properties, Entries.standing_of_nodup distinct,
    Entries.standing_of_nodup all, validateFields_append]
  cases run : validateFields (fun schema slot => schema.validate below slot) own first with
  | error f => rfl
  | ok results =>
      have same : ∀ d ∈ second, (merge own results).lookup d.1 = own.lookup d.1 := by
        intro d mem
        have other : results.lookup d.1 = none := by
          rw [Entries.lookup_eq_none_iff, names_results run]
          exact fun known => apart d.1 known (List.mem_map_of_mem mem)
        rw [lookup_merge (names_results run ▸ distinct), other]
        rfl
      have later : (record second).validate c (some (.object (merge own results))) = _ :=
        validate_record_of_runs declared' descend rfl
      rw [Entries.standing_of_nodup distinct', validateFields_congr same] at later
      refine later.trans ?_
      rw [Outcome.map_map]
      simp only [merge_append]

theorem validate_and_records_eq_ok_iff (declared : first ≠ []) (declared' : second ≠ [])
    (distinct : (names first).Nodup) (distinct' : (names second).Nodup) (descend : c.descend = .ok below)
    (properties : v.properties? = some own) :
    (and (record first) (record second)).validate c (some v) = .ok r ↔
      (record (mergedFields first second)).validate c (some v) = .ok r := by
  have all := nodup_names_mergedFields distinct distinct'
  have declaredAll := mergedFields_ne_nil declared second
  have one := fun narrowed => @validate_record_eq_ok_iff_fields own c below v narrowed first declared descend
    properties
  have two := fun mid => @validate_record_eq_ok_iff_fields (overwrite mid own) c below
    (.object (overwrite mid own)) r second declared' descend rfl
  rw [Entries.standing_of_nodup distinct] at one
  rw [Entries.standing_of_nodup distinct'] at two
  rw [validate_and_eq_ok_iff, validate_record_eq_ok_iff_fields declaredAll descend properties,
    Entries.standing_of_nodup all]
  constructor
  · rintro ⟨narrowed, ran, ranNext⟩
    obtain ⟨mid, returned, rfl⟩ := (one narrowed).1 ran
    obtain ⟨new, returned', rfl⟩ := (two mid).1 ranNext
    refine ⟨new, fieldsReturn_mergedFields.2 ⟨mid, returned, returned'⟩, ?_⟩
    rw [overwrite_of_fieldsReturn returned returned']
  · rintro ⟨new, returned, rfl⟩
    obtain ⟨mid, returned, returned'⟩ := fieldsReturn_mergedFields.1 returned
    refine ⟨_, (one _).2 ⟨mid, returned, rfl⟩, (two mid).2 ⟨new, returned', ?_⟩⟩
    rw [overwrite_of_fieldsReturn returned returned']

end Run

section Edges

variable (c : Context) (slot : Slot)

theorem validate_record_nil : (record []).validate c slot = (Checks.properties slot).map fun _ => slot := by
  rw [validate_record]
  cases Checks.properties slot <;> rfl

theorem validate_and_record_nil_left (second : Entries Schema) :
    (and (record []) (record second)).validate c slot = (record second).validate c slot := by
  rw [validate_and, validate_record_nil]
  cases properties : Checks.properties slot with
  | error f =>
      rw [validate_record, properties]
      rfl
  | ok own => rfl

theorem validate_and_record_nil_right (first : Entries Schema) :
    (and (record first) (record [])).validate c slot = (record first).validate c slot := by
  rw [validate_and]
  cases run : (record first).validate c slot with
  | error f => rfl
  | ok r =>
      refine validate_record_eq_ok_iff.2 ?_
      obtain ⟨v, own, rfl, properties, ⟨-, rfl⟩ | ⟨-, results, -, -, -, rfl⟩⟩ :=
        validate_record_eq_ok_iff.1 run
      · exact ⟨v, own, rfl, properties, .inl ⟨rfl, rfl⟩⟩
      · exact ⟨_, _, rfl, rfl, .inl ⟨rfl, rfl⟩⟩

theorem record_runs_or_fails :
    (∃ v own below, slot = some v ∧ v.properties? = some own ∧ c.descend = .ok below) ∨
      ∃ f, ∀ fields ≠ [], (record fields).validate c slot = .error f := by
  cases properties : Checks.properties slot with
  | error f =>
      refine .inr ⟨f, fun fields _ => ?_⟩
      rw [validate_record, properties]
  | ok own =>
      obtain ⟨v, hv, ho⟩ := (Checks.properties_eq_ok_iff slot own).1 properties
      cases descend : c.descend with
      | error f =>
          refine .inr ⟨f, fun fields declared => ?_⟩
          rw [validate_record, properties, descend]
          simp [declared]
      | ok below => exact .inl ⟨v, own, below, hv, ho, rfl⟩

theorem interpret_and_record (first : Schema) (fields : Entries Schema) :
    (and first (record fields)).interpret c slot =
      ((and first (record fields)).validate c slot).map fun r => .value (r.getD .null) := by
  rw [interpret_and, validate_and]
  cases first.validate c slot with
  | error f => rfl
  | ok narrowed => exact interpret_record c narrowed fields

end Edges

/-- Two records in a row accept what one record accepts that declares the fields of both, and return the
same. Without a field in common they also fail alike. -/
theorem and_of_records_merges {first second : Entries Schema} (distinct : (names first).Nodup)
    (distinct' : (names second).Nodup) (c : Context) (slot : Slot) :
    SameResults (and (record first) (record second)) (record (mergedFields first second)) c slot ∧
      ((∀ key ∈ names first, key ∉ names second) →
        (and (record first) (record second)).validate c slot =
            (record (mergedFields first second)).validate c slot ∧
          (and (record first) (record second)).interpret c slot =
            (record (mergedFields first second)).interpret c slot) := by
  suffices value : (∀ r, (and (record first) (record second)).validate c slot = .ok r ↔
      (record (mergedFields first second)).validate c slot = .ok r) ∧
        ((∀ key ∈ names first, key ∉ names second) →
          (and (record first) (record second)).validate c slot =
            (record (mergedFields first second)).validate c slot) by
    obtain ⟨same, equal⟩ := value
    refine ⟨sameResults_of_values (interpret_and_record ..) (interpret_record ..) same, fun apart => ?_⟩
    rw [interpret_and_record, interpret_record, equal apart]
    exact ⟨rfl, rfl⟩
  by_cases declared : first = []
  · have equal := validate_and_record_nil_left c slot second
    rw [declared, mergedFields_nil_left, equal]
    exact ⟨fun _ => Iff.rfl, fun _ => rfl⟩
  by_cases declared' : second = []
  · have equal := validate_and_record_nil_right c slot first
    rw [declared', mergedFields_nil_right, equal]
    exact ⟨fun _ => Iff.rfl, fun _ => rfl⟩
  obtain ⟨v, own, below, rfl, properties, descend⟩ | ⟨f, fails⟩ := record_runs_or_fails c slot
  · constructor
    · exact fun r =>
        validate_and_records_eq_ok_iff declared declared' distinct distinct' descend properties
    · exact fun apart =>
        validate_and_of_apart declared declared' distinct distinct' apart descend properties
  · rw [validate_and, fails _ declared, fails _ (mergedFields_ne_nil declared second)]
    exact ⟨fun _ => Iff.rfl, fun _ => rfl⟩

theorem and_of_records_merges_items :
    let first := [("0", any), ("1", string)]
    let second := [("1", keyOf ["b"]), ("2", optional number)]
    let items : Slot := some (.array [.string "a", .string "b"])
    let object : Slot := some (.object [("0", .string "a"), ("1", .string "b")])
    (names first).Nodup ∧ (names second).Nodup ∧
      (and (record first) (record second)).validate {} items = .ok object ∧
      (record [("0", any), ("1", and string (keyOf ["b"])), ("2", optional number)]).validate {} items =
        .ok object ∧
      (∀ key ∈ names [("0", any)], key ∉ names second) ∧
      (and (record [("0", any)]) (record second)).validate {} (some (.array [])) =
        (record [("0", any), ("1", keyOf ["b"]), ("2", optional number)]).validate {}
          (some (.array [])) := by
  intro first second items object
  have distinct : (names first).Nodup := by decide
  have distinct' : (names second).Nodup := by decide
  have single : (names [("0", any)]).Nodup := by decide
  have apart : ∀ key ∈ names [("0", any)], key ∉ names second := by decide
  have run : (and (record first) (record second)).validate {} items = .ok object := rfl
  obtain ⟨⟨same, -⟩, -⟩ := and_of_records_merges distinct distinct' {} items
  obtain ⟨-, equal⟩ := and_of_records_merges single distinct' {} (some (.array []))
  exact ⟨distinct, distinct', run, (same object).1 run, apart, (equal apart).1⟩

end Schema

end JsonShape
