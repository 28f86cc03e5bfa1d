import JsonShape.Proofs.Views

/-!
The exhaustive traversal: all that is wrong with a slot, in the order of items and of declared fields.
An item or field that fails does not stop it; only `and` goes no further than a first schema that finds
something wrong, and `or` asks the second only then. The main statement is that validation fails with the
first failure of the traversal, and succeeds where there is none.
-/

namespace JsonShape.Schema

abbrev Survey := Schema → Slot → List Failure

def itemFailures (child : Survey) (item : Schema) (items : List Value) : List Failure :=
  items.zipIdx.flatMap fun (v, i) => (child item (some v)).map fun f => f.within (.index i)

def fieldFailures (child : Survey) (own : Entries Value) (fields : Entries Schema) :
    List Failure :=
  fields.flatMap fun (name, schema) =>
    (child schema (own.lookup name)).map fun f => f.within (.field name)

mutual

/-- One layer of the traversal. `below` is the value view one level further in, which tells what the first
schema of an `and` returns, and `surveyBelow` the traversal there. -/
def failuresLayer (registry : Option Registry) (below : Outcome Run) (surveyBelow : Outcome Survey) :
    Schema → Slot → List Failure
  | string, slot => (Checks.string slot).failure?.toList
  | number, slot => (Checks.number slot).failure?.toList
  | boolean, slot => (Checks.boolean slot).failure?.toList
  | any, _ => []
  | exact expected, slot => (Checks.exactly expected slot).failure?.toList
  | oneOf allowed, slot => (Checks.among allowed slot).failure?.toList
  | keyOf keys, slot => (Checks.key keys slot).failure?.toList
  | array item, slot =>
    match Checks.items slot with
    | .error f => [f]
    | .ok [] => []
    | .ok items =>
      match surveyBelow with
      | .error f => [f]
      | .ok child => itemFailures child item items
  | record declarations, slot =>
    match Checks.properties slot with
    | .error f => [f]
    | .ok own =>
      if declarations.isEmpty then []
      else
        match surveyBelow with
        | .error f => [f]
        | .ok child => fieldFailures child own (Entries.standing declarations)
  | and first second, slot =>
    match failuresLayer registry below surveyBelow first slot with
    | [] =>
      match validateLayer registry below first slot with
      | .ok narrowed => failuresLayer registry below surveyBelow second narrowed
      | .error _ => []
    | failures => failures
  | or first second, slot =>
    match failuresLayer registry below surveyBelow first slot with
    | [] => []
    | _ => failuresLayer registry below surveyBelow second slot
  | optional inner, slot =>
    match slot with
    | none => []
    | some v => failuresLayer registry below surveyBelow inner (some v)
  | nullable inner, slot =>
    match slot with
    | some .null => []
    | slot => failuresLayer registry below surveyBelow inner slot
  | union discriminant declarations, slot =>
    match Checks.tag discriminant slot with
    | .error f => [f]
    | .ok (some (.string tag)) =>
      match (Entries.standing (variantFailures registry below surveyBelow declarations)).lookup tag with
      | some variant => variant slot
      | none => [Checks.badTag discriminant (.unknownKey tag (declaredNames declarations))]
    | .ok other => [Checks.badTag discriminant (.wrongKind "string" (.ofSlot other))]
  | ref name, slot =>
    match registry with
    | none => [.atRoot .missingRegistry (.noRegistry name)]
    | some r =>
      match r.get? name with
      | none => [.atRoot .missingReference (.unboundReference name)]
      | some target =>
        match surveyBelow with
        | .error f => [f]
        | .ok child => child target slot
  | stored schema, slot => failuresLayer registry below surveyBelow schema slot

def variantFailures (registry : Option Registry) (below : Outcome Run)
    (surveyBelow : Outcome Survey) : List (String × Schema) → Entries (Slot → List Failure)
  | [] => []
  | (tag, schema) :: rest =>
    (tag, fun slot => failuresLayer registry below surveyBelow schema slot) ::
      variantFailures registry below surveyBelow rest

end

def failuresWithin (registry : Option Registry) (limit : Nat) :
    (remaining : Nat) → Schema → Slot → List Failure
  | 0, schema, slot =>
    failuresLayer registry (.error (.tooDeep limit)) (.error (.tooDeep limit)) schema slot
  | n + 1, schema, slot =>
    failuresLayer registry (.ok (validateWithin registry limit n))
      (.ok (failuresWithin registry limit n)) schema slot

/-- All that is wrong with a slot in a context. -/
def failures (schema : Schema) (c : Context) (slot : Slot) : List Failure :=
  failuresWithin c.registry c.maxDepth c.remaining schema slot

theorem lookup_variantFailures (registry : Option Registry) (below : Outcome Run)
    (surveyBelow : Outcome Survey) (declarations : List (String × Schema)) (tag : String) :
    (Entries.standing (variantFailures registry below surveyBelow declarations)).lookup tag =
      ((Entries.standing declarations).lookup tag).map
        (failuresLayer registry below surveyBelow) := by
  have h : variantFailures registry below surveyBelow declarations =
      Entries.mapValues (failuresLayer registry below surveyBelow) declarations := by
    induction declarations with
    | nil => rfl
    | cons d rest ih => simp [variantFailures, ih, Entries.mapValues]
  rw [h, Entries.standing_mapValues, Entries.lookup_mapValues]

theorem failures_eq (schema : Schema) (c : Context) (slot : Slot) :
    schema.failures c slot =
      failuresLayer c.registry (c.descend.map fun child schema slot => schema.validate child slot)
        (c.descend.map fun child schema slot => schema.failures child slot) schema slot := by
  cases hc : c.descend with
  | error f =>
      obtain ⟨hle, rfl⟩ := (Context.descend_eq_error_iff c f).1 hc
      have hr : c.remaining = 0 := by
        unfold Context.remaining
        omega
      rw [failures, hr]
      rfl
  | ok child =>
      have hr := Context.remaining_of_descend hc
      obtain ⟨-, rfl⟩ := (Context.descend_eq_ok_iff c child).1 hc
      rw [failures, hr]
      rfl

section Rules

variable (c : Context) (slot : Slot)

theorem failures_array (item : Schema) :
    (array item).failures c slot =
      match Checks.items slot with
      | .error f => [f]
      | .ok [] => []
      | .ok items =>
        match c.descend with
        | .error f => [f]
        | .ok child => itemFailures (fun schema slot => schema.failures child slot) item items := by
  rw [failures_eq]
  cases c.descend <;> rfl

theorem failures_record (declarations : List (String × Schema)) :
    (record declarations).failures c slot =
      match Checks.properties slot with
      | .error f => [f]
      | .ok own =>
        if declarations.isEmpty then []
        else
          match c.descend with
          | .error f => [f]
          | .ok child =>
            fieldFailures (fun schema slot => schema.failures child slot) own
              (Entries.standing declarations) := by
  rw [failures_eq]
  cases c.descend <;> rfl

theorem failures_and (first second : Schema) :
    (and first second).failures c slot =
      match first.failures c slot with
      | [] =>
        match first.validate c slot with
        | .ok narrowed => second.failures c narrowed
        | .error _ => []
      | failures => failures := by
  simp only [failures_eq (and first second) c, failures_eq first c, validate_eq first c,
    failures_eq second c, failuresLayer]

theorem failures_or (first second : Schema) :
    (or first second).failures c slot =
      match first.failures c slot with
      | [] => []
      | _ => second.failures c slot := by
  simp only [failures_eq (or first second) c, failures_eq first c, failures_eq second c,
    failuresLayer]

theorem failures_optional (inner : Schema) :
    (optional inner).failures c slot =
      match slot with
      | none => []
      | some v => inner.failures c (some v) := by
  simp only [failures_eq (optional inner) c, failures_eq inner c, failuresLayer]

@[simp] theorem failures_nullable_null (inner : Schema) :
    (nullable inner).failures c (some .null) = [] := failures_eq ..

variable {slot} in
theorem failures_nullable (inner : Schema) (h : slot ≠ some .null) :
    (nullable inner).failures c slot = inner.failures c slot := by
  rw [failures_eq, failures_eq inner, failuresLayer]
  exact h

theorem failures_union (discriminant : String) (declarations : List (String × Schema)) :
    (union discriminant declarations).failures c slot =
      match Checks.tag discriminant slot with
      | .error f => [f]
      | .ok (some (.string tag)) =>
        match (Entries.standing declarations).lookup tag with
        | some variant => variant.failures c slot
        | none => [Checks.badTag discriminant (.unknownKey tag (declaredNames declarations))]
      | .ok other => [Checks.badTag discriminant (.wrongKind "string" (.ofSlot other))] := by
  rw [failures_eq, failuresLayer]
  cases Checks.tag discriminant slot with
  | error f => rfl
  | ok t =>
      cases t with
      | none => rfl
      | some v =>
          cases v with
          | string tag =>
              simp only [lookup_variantFailures]
              cases (Entries.standing declarations).lookup tag with
              | none => rfl
              | some variant => exact (failures_eq variant c slot).symm
          | _ => rfl

theorem failures_ref (name : String) :
    (ref name).failures c slot =
      match c.registry with
      | none => [.atRoot .missingRegistry (.noRegistry name)]
      | some r =>
        match r.get? name with
        | none => [.atRoot .missingReference (.unboundReference name)]
        | some target =>
          match c.descend with
          | .error f => [f]
          | .ok child => target.failures child slot := by
  rw [failures_eq]
  cases c.descend <;> rfl

@[simp] theorem failures_stored (schema : Schema) :
    (stored schema).failures c slot = schema.failures c slot := by
  simp only [failures_eq (stored schema) c, failures_eq schema c, failuresLayer]

end Rules

/-- An outcome fails with the first of the failures that a traversal finds, if it finds any. -/
def First {α : Type} (r : Outcome α) (found : List Failure) : Prop := r.failure? = found.head?

theorem first_of_check {α β : Type} (check : Outcome α) (g : α → β) :
    First (check.map g) check.failure?.toList := by
  unfold First
  rw [Outcome.failure?_map]
  cases check <;> rfl

theorem first_items {child : Run} {survey : Survey} {item : Schema} (items : List Value)
    (h : ∀ v, First (child item (some v)) (survey item (some v))) :
    First (validateItems child item items) (itemFailures survey item items) := by
  refine Outcome.failure?_mapM fun a _ => ?_
  rw [Outcome.failure?_under, Outcome.failure?_map, List.head?_map]
  exact congrArg (Option.map fun f => f.within (.index a.2)) (h a.1)

theorem first_fields {child : Run} {survey : Survey} (own : Entries Value) (fields : Entries Schema)
    (h : ∀ schema slot, First (child schema slot) (survey schema slot)) :
    First (validateFields child own fields) (fieldFailures survey own fields) := by
  refine Outcome.failure?_mapM fun d _ => ?_
  rw [Outcome.failure?_under, Outcome.failure?_map, List.head?_map]
  exact congrArg (Option.map fun f => f.within (.field d.1)) (h d.2 (own.lookup d.1))

theorem first_map {α β : Type} {r : Outcome α} {found : List Failure} (g : α → β)
    (h : First r found) : First (r.map g) found := (Outcome.failure?_map g r).trans h

theorem first_ok_iff {α : Type} {r : Outcome α} {found : List Failure} (h : First r found) :
    (∃ a, r = .ok a) ↔ found = [] := by
  rw [← Outcome.failure?_eq_none_iff, h, List.head?_eq_none_iff]

theorem first_of_below {c : Context}
    (below : ∀ child, c.descend = .ok child →
      ∀ (schema : Schema) slot, First (schema.validate child slot) (schema.failures child slot))
    (schema : Schema) (slot : Slot) :
    First (schema.validate c slot) (schema.failures c slot) := by
  induction schema generalizing slot with
  | string =>
      rw [validate_string, failures_eq]
      exact first_of_check _ _
  | number =>
      rw [validate_number, failures_eq]
      exact first_of_check _ _
  | boolean =>
      rw [validate_boolean, failures_eq]
      exact first_of_check _ _
  | any =>
      rw [validate_any, failures_eq]
      rfl
  | exact expected =>
      rw [validate_exact, failures_eq]
      exact first_of_check _ _
  | oneOf allowed =>
      rw [validate_oneOf, failures_eq]
      exact first_of_check _ _
  | keyOf keys =>
      rw [validate_keyOf, failures_eq]
      exact first_of_check _ _
  | array item =>
      rw [validate_array, failures_array]
      cases Checks.items slot with
      | error f => rfl
      | ok items =>
          cases items with
          | nil => rfl
          | cons v items =>
              cases hc : c.descend with
              | error f => rfl
              | ok child =>
                  exact first_map _ (first_items _ fun v => below child hc item (some v))
  | record declarations =>
      rw [validate_record, failures_record]
      cases Checks.properties slot with
      | error f => rfl
      | ok own =>
          dsimp only
          split
          · rfl
          · cases hc : c.descend with
            | error f => rfl
            | ok child => exact first_map _ (first_fields own _ (below child hc))
  | and first second ihFirst ihSecond =>
      rw [validate_and, failures_and]
      have hf := ihFirst slot
      cases hv : first.validate c slot with
      | error f =>
          cases hs : first.failures c slot with
          | nil => simp [First, hv, hs, Outcome.failure?] at hf
          | cons g failures => simpa [First, hv, hs] using hf
      | ok narrowed =>
          have hs : first.failures c slot = [] := (first_ok_iff hf).1 ⟨narrowed, hv⟩
          rw [hs]
          exact ihSecond narrowed
  | or first second ihFirst ihSecond =>
      rw [validate_or, failures_or]
      have hf := ihFirst slot
      cases hv : first.validate c slot with
      | error f =>
          cases hs : first.failures c slot with
          | nil => simp [First, hv, hs, Outcome.failure?] at hf
          | cons g failures => exact ihSecond slot
      | ok r =>
          have hs : first.failures c slot = [] := (first_ok_iff hf).1 ⟨r, hv⟩
          rw [hs]
          rfl
  | optional inner ih =>
      rw [validate_optional, failures_optional]
      cases slot with
      | none => rfl
      | some v => exact ih (some v)
  | nullable inner ih =>
      by_cases h : slot = some .null
      · rw [h, validate_nullable_null, failures_nullable_null]
        rfl
      · rw [validate_nullable c inner h, failures_nullable c inner h]
        exact ih slot
  | union discriminant declarations ih =>
      rw [validate_union, failures_union]
      cases Checks.tag discriminant slot with
      | error f => rfl
      | ok t =>
          cases t with
          | none => rfl
          | some v =>
              cases v with
              | string tag =>
                  dsimp only
                  cases hv : (Entries.standing declarations).lookup tag with
                  | none => rfl
                  | some variant => exact ih _ (Entries.mem_of_lookup_standing hv) slot
              | _ => rfl
  | ref name =>
      rw [validate_ref, failures_ref]
      cases c.registry with
      | none => rfl
      | some r =>
          dsimp only
          cases r.get? name with
          | none => rfl
          | some target =>
              cases hc : c.descend with
              | error f => rfl
              | ok child => exact below child hc target slot
  | stored schema ih =>
      rw [validate_stored, failures_stored]
      exact ih slot

theorem first_of_failures (schema : Schema) (c : Context) (slot : Slot) :
    First (schema.validate c slot) (schema.failures c slot) := by
  induction c using Context.induction generalizing schema slot with
  | step c below =>
      exact first_of_below (fun child hc schema slot => below child hc schema slot) schema slot

/-- Validation succeeds, in both views, when the exhaustive traversal finds nothing wrong, and otherwise
fails with the first failure that it finds. -/
theorem validate_reports_first (schema : Schema) (c : Context) (slot : Slot) :
    ((∃ r, schema.validate c slot = .ok r) ↔ schema.failures c slot = []) ∧
      (∀ f, schema.validate c slot = .error f ↔ (schema.failures c slot).head? = some f) ∧
      ((∃ t, schema.interpret c slot = .ok t) ↔ schema.failures c slot = []) ∧
      ∀ f, schema.interpret c slot = .error f ↔ (schema.failures c slot).head? = some f := by
  have first := first_of_failures schema c slot
  have typed : First (schema.interpret c slot) (schema.failures c slot) :=
    (failure?_interpret schema c slot).trans first
  have fails : ∀ {α : Type} {r : Outcome α}, First r (schema.failures c slot) →
      ∀ f, r = .error f ↔ (schema.failures c slot).head? = some f := fun h f => by
    rw [← Outcome.failure?_eq_some_iff, h]
  exact ⟨first_ok_iff first, fails first, first_ok_iff typed, fails typed⟩

example : ((array string).failures {} (some (.array [.null, .string "a", .bool true]))).map
    (fun f => f.path.text) = ["[0]", "[2]"] := by decide

end JsonShape.Schema
