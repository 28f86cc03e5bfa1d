import JsonShape.Proofs.Rules

/-!
The typed view and the value view of a schema. After the rules of the typed view, the main statement is
that both views fail alike, and that a typed result erases to the value the other view returns.
-/

namespace JsonShape.Schema

section Rules

variable (c : Context) (slot : Slot)

theorem interpret_string :
    string.interpret c slot = (Checks.string slot).map .string := interpret_eq ..

theorem interpret_number :
    number.interpret c slot = (Checks.number slot).map .number := interpret_eq ..

theorem interpret_boolean :
    boolean.interpret c slot = (Checks.boolean slot).map .boolean := interpret_eq ..

@[simp] theorem interpret_any : any.interpret c slot = .ok (.value (slot.getD .null)) := interpret_eq ..

theorem interpret_exact (expected : Value) :
    (exact expected).interpret c slot = (Checks.exactly expected slot).map .value :=
  interpret_eq ..

theorem interpret_oneOf (allowed : List Value) :
    (oneOf allowed).interpret c slot = (Checks.among allowed slot).map .value := interpret_eq ..

theorem interpret_keyOf (keys : List String) :
    (keyOf keys).interpret c slot = (Checks.key keys slot).map .string := interpret_eq ..

theorem interpret_array (item : Schema) :
    (array item).interpret c slot =
      match Checks.items slot with
      | .error f => .error f
      | .ok [] => .ok (.array [])
      | .ok items =>
        match c.descend with
        | .error f => .error f
        | .ok child =>
          (interpretItems (fun schema slot => schema.interpret child slot) item items).map
            .array := by
  rw [interpret_eq]
  cases c.descend <;> rfl

variable {c} in
theorem interpret_array_of_ne_nil {item : Schema} {items : List Value} {child : Context}
    (descend : c.descend = .ok child) (nonempty : items ≠ []) :
    (array item).interpret c (some (.array items)) =
      (interpretItems (fun schema slot => schema.interpret child slot) item items).map .array := by
  rw [interpret_array, descend]
  cases items with
  | nil => exact absurd rfl nonempty
  | cons v items => rfl

theorem interpret_and (first second : Schema) :
    (and first second).interpret c slot =
      match first.validate c slot with
      | .error f => .error f
      | .ok narrowed => second.interpret c narrowed := by
  simp only [interpret_eq (and first second) c, validate_eq first c, interpret_eq second c]
  rfl

theorem interpret_or (first second : Schema) :
    (or first second).interpret c slot =
      match first.interpret c slot with
      | .error _ => (second.interpret c slot).map .right
      | .ok t => .ok (.left t) := by
  simp only [interpret_eq (or first second) c, interpret_eq first c, interpret_eq second c]
  rfl

theorem interpret_optional (inner : Schema) :
    (optional inner).interpret c slot =
      match slot with
      | none => .ok .none
      | some v => (inner.interpret c (some v)).map .some := by
  simp only [interpret_eq (optional inner) c, interpret_eq inner c]
  rfl

@[simp] theorem interpret_nullable_null (inner : Schema) :
    (nullable inner).interpret c (some .null) = .ok .none := interpret_eq ..

variable {slot} in
theorem interpret_nullable (inner : Schema) (h : slot ≠ some .null) :
    (nullable inner).interpret c slot = (inner.interpret c slot).map .some := by
  rw [interpret_eq, interpret_eq inner, interpretLayer]
  exact h

theorem interpret_record (declarations : List (String × Schema)) :
    (record declarations).interpret c slot =
      ((record declarations).validate c slot).map fun r => .value (r.getD .null) := by
  rw [interpret_eq, validate_eq]
  rfl

theorem interpret_union (discriminant : String) (declarations : List (String × Schema)) :
    (union discriminant declarations).interpret c slot =
      ((union discriminant declarations).validate c slot).map fun r => .value (r.getD .null) := by
  rw [interpret_eq, validate_eq]
  rfl

theorem interpret_ref (name : String) :
    (ref name).interpret c slot =
      ((ref name).validate c slot).map fun r => .value (r.getD .null) := by
  rw [interpret_eq, validate_eq]
  rfl

theorem interpret_stored (schema : Schema) :
    (stored schema).interpret c slot =
      ((stored schema).validate c slot).map fun r => .value (r.getD .null) := by
  rw [interpret_eq, validate_eq]
  rfl

end Rules

def Agree (typed : Outcome Typed) (value : Outcome Slot) : Prop :=
  typed.map Typed.erase = value.map fun r => r.getD .null

theorem agree_map {α : Type} (check : Outcome α) (typed : α → Typed) (value : α → Slot)
    (h : ∀ a, (typed a).erase = (value a).getD .null) :
    Agree (check.map typed) (check.map value) := by
  unfold Agree
  rw [Outcome.map_map, Outcome.map_map]
  simp only [h]

theorem agree_wrap (wrap : Typed → Typed) (h : ∀ t, (wrap t).erase = t.erase)
    {typed : Outcome Typed} {value : Outcome Slot} (agree : Agree typed value) :
    Agree (typed.map wrap) value := by
  unfold Agree at agree ⊢
  rw [Outcome.map_map, ← agree]
  simp only [h]

theorem agree_value (value : Outcome Slot) :
    Agree (value.map fun r => .value (r.getD .null)) value := by
  unfold Agree
  rw [Outcome.map_map]
  rfl

theorem agree_items {child : Run} {typedChild : TypedRun} (item : Schema) (items : List Value)
    (h : ∀ v, Agree (typedChild item (some v)) (child item (some v))) :
    Agree ((interpretItems typedChild item items).map .array)
      ((validateItems child item items).map fun l => some (.array l)) := by
  have lists : (interpretItems typedChild item items).map (List.map Typed.erase) =
      (validateItems child item items).map (List.map id) := by
    refine Outcome.mapM_agree Typed.erase id fun a _ => ?_
    rw [Outcome.map_under, Outcome.map_under, Outcome.map_map]
    exact congrArg (Outcome.under (.index a.2)) (h a.1)
  have arrays := congrArg (Except.map Value.array) lists
  unfold Agree
  rw [Outcome.map_map, Outcome.map_map] at arrays ⊢
  simpa only [Typed.erase, Typed.eraseItems_eq_map, List.map_id, Option.getD_some] using arrays

theorem agree_of_below {c : Context}
    (below : ∀ child, c.descend = .ok child →
      ∀ (schema : Schema) slot, Agree (schema.interpret child slot) (schema.validate child slot))
    (schema : Schema) (slot : Slot) :
    Agree (schema.interpret c slot) (schema.validate c slot) := by
  induction schema generalizing slot with
  | string =>
      rw [interpret_string, validate_string]
      exact agree_map _ _ _ fun _ => rfl
  | number =>
      rw [interpret_number, validate_number]
      exact agree_map _ _ _ fun _ => rfl
  | boolean =>
      rw [interpret_boolean, validate_boolean]
      exact agree_map _ _ _ fun _ => rfl
  | any =>
      rw [interpret_any, validate_any]
      rfl
  | exact expected =>
      rw [interpret_exact, validate_exact]
      exact agree_map _ _ _ fun _ => rfl
  | oneOf allowed =>
      rw [interpret_oneOf, validate_oneOf]
      exact agree_map _ _ _ fun _ => rfl
  | keyOf keys =>
      rw [interpret_keyOf, validate_keyOf]
      exact agree_map _ _ _ fun _ => rfl
  | array item =>
      rw [interpret_array, validate_array]
      cases Checks.items slot with
      | error f => rfl
      | ok items =>
          cases items with
          | nil => rfl
          | cons v items =>
              cases hc : c.descend with
              | error f => rfl
              | ok child => exact agree_items item _ fun v => below child hc item (some v)
  | record declarations =>
      rw [interpret_record]
      exact agree_value _
  | and first second _ ihSecond =>
      rw [interpret_and, validate_and]
      cases first.validate c slot with
      | error f => rfl
      | ok narrowed => exact ihSecond narrowed
  | or first second ihFirst ihSecond =>
      rw [interpret_or, validate_or]
      have hf := ihFirst slot
      cases ht : first.interpret c slot with
      | error f =>
          cases hv : first.validate c slot with
          | error g => exact agree_wrap Typed.right (fun _ => rfl) (ihSecond slot)
          | ok r => simp [Agree, ht, hv, Except.map] at hf
      | ok t =>
          cases hv : first.validate c slot with
          | error g => simp [Agree, ht, hv, Except.map] at hf
          | ok r => simpa [Agree, ht, hv, Except.map, Typed.erase] using hf
  | optional inner ih =>
      rw [interpret_optional, validate_optional]
      cases slot with
      | none => rfl
      | some v => exact agree_wrap Typed.some (fun _ => rfl) (ih (some v))
  | nullable inner ih =>
      by_cases h : slot = some .null
      · rw [h, interpret_nullable_null, validate_nullable_null]
        rfl
      · rw [interpret_nullable c inner h, validate_nullable c inner h]
        exact agree_wrap Typed.some (fun _ => rfl) (ih slot)
  | union discriminant declarations _ =>
      rw [interpret_union]
      exact agree_value _
  | ref name =>
      rw [interpret_ref]
      exact agree_value _
  | stored schema _ =>
      rw [interpret_stored]
      exact agree_value _

theorem agree (schema : Schema) (c : Context) (slot : Slot) :
    Agree (schema.interpret c slot) (schema.validate c slot) := by
  induction c using Context.induction generalizing schema slot with
  | step c below =>
      exact agree_of_below (fun child h schema slot => below child h schema slot) schema slot

theorem failure?_interpret (schema : Schema) (c : Context) (slot : Slot) :
    (schema.interpret c slot).failure? = (schema.validate c slot).failure? := by
  have h := congrArg Outcome.failure? (agree schema c slot)
  rw [Outcome.failure?_map, Outcome.failure?_map] at h
  exact h

theorem validate_of_view {schema : Schema} {c : Context} {slot : Slot} {f : Failure}
    (h : schema.validate c slot = .error f ∨ schema.interpret c slot = .error f) :
    schema.validate c slot = .error f := by
  rcases h with h | h
  · exact h
  · have both := failure?_interpret schema c slot
    rw [h] at both
    exact (Outcome.failure?_eq_some_iff _ _).1 both.symm

theorem interpret_of_validate {schema : Schema} {c : Context} {slot r : Slot}
    (h : schema.validate c slot = .ok r) :
    ∃ t, schema.interpret c slot = .ok t ∧ t.erase = r.getD .null := by
  have both := agree schema c slot
  rw [Agree, h] at both
  exact (Outcome.map_eq_ok_iff _ _ _).1 both

theorem validate_of_interpret {schema : Schema} {c : Context} {slot : Slot} {t : Typed}
    (h : schema.interpret c slot = .ok t) :
    ∃ r, schema.validate c slot = .ok r ∧ t.erase = r.getD .null := by
  have both := agree schema c slot
  rw [Agree, h] at both
  obtain ⟨r, hr, erased⟩ := (Outcome.map_eq_ok_iff _ _ _).1 both.symm
  exact ⟨r, hr, erased.symm⟩

/-- Both views of a schema fail alike, with one failure; where they succeed, the typed result erases to
the result of the value view, an absent one read as null. -/
theorem interpret_agrees_with_validate (schema : Schema) (c : Context) (slot : Slot) :
    ((∃ t, schema.interpret c slot = .ok t) ↔ ∃ r, schema.validate c slot = .ok r) ∧
      (∀ f, schema.interpret c slot = .error f ↔ schema.validate c slot = .error f) ∧
      ∀ t r, schema.interpret c slot = .ok t → schema.validate c slot = .ok r →
        t.erase = r.getD .null := by
  refine ⟨⟨?_, ?_⟩, fun f => ?_, fun t r typed value => ?_⟩
  · rintro ⟨t, typed⟩
    obtain ⟨r, value, -⟩ := validate_of_interpret typed
    exact ⟨r, value⟩
  · rintro ⟨r, value⟩
    obtain ⟨t, typed, -⟩ := interpret_of_validate value
    exact ⟨t, typed⟩
  · rw [← Outcome.failure?_eq_some_iff, ← Outcome.failure?_eq_some_iff, failure?_interpret]
  · obtain ⟨r', value', erased⟩ := validate_of_interpret typed
    rw [value] at value'
    cases value'
    exact erased

theorem interpret_agrees_with_validate_fallback :
    (array (or number (nullable string))).interpret {} (some (.array [.null, .string "a"])) =
      .ok (.array [.right .none, .right (.some (.string "a"))]) ∧
    (Typed.array [.right .none, .right (.some (.string "a"))]).erase =
      .array [.null, .string "a"] := by
  have typed : (array (or number (nullable string))).interpret {}
      (some (.array [.null, .string "a"])) =
        .ok (.array [.right .none, .right (.some (.string "a"))]) := by rfl
  have value : (array (or number (nullable string))).validate {}
      (some (.array [.null, .string "a"])) = .ok (some (.array [.null, .string "a"])) := by rfl
  exact ⟨typed, (interpret_agrees_with_validate _ _ _).2.2 _ _ typed value⟩

end JsonShape.Schema
