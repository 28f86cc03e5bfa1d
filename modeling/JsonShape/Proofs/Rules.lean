import JsonShape.Proofs.Checks
import JsonShape.Proofs.Parts

/-!
The rules of validation, one for each form of schema: what a schema makes of a slot in a context, told
by what its parts make of it there or one level further in. From them come the ways in which each form
that has parts succeeds and fails.
-/

namespace JsonShape.Schema

theorem lookup_variantRuns (registry : Option Registry) (below : Outcome Run)
    (declarations : List (String × Schema)) (tag : String) :
    (Entries.standing (variantRuns registry below declarations)).lookup tag =
      ((Entries.standing declarations).lookup tag).map (validateLayer registry below) := by
  rw [variantRuns_eq, Entries.standing_mapValues, Entries.lookup_mapValues]

section Rules

variable (c : Context) (slot : Slot)

theorem validate_string :
    string.validate c slot = (Checks.string slot).map fun s => some (.string s) := validate_eq ..

theorem validate_number :
    number.validate c slot = (Checks.number slot).map fun n => some (.number n) := validate_eq ..

theorem validate_boolean :
    boolean.validate c slot = (Checks.boolean slot).map fun b => some (.bool b) := validate_eq ..

@[simp] theorem validate_any : any.validate c slot = .ok slot := validate_eq ..

theorem validate_exact (expected : Value) :
    (exact expected).validate c slot = (Checks.exactly expected slot).map some := validate_eq ..

theorem validate_oneOf (allowed : List Value) :
    (oneOf allowed).validate c slot = (Checks.among allowed slot).map some := validate_eq ..

theorem validate_keyOf (keys : List String) :
    (keyOf keys).validate c slot = (Checks.key keys slot).map fun s => some (.string s) :=
  validate_eq ..

theorem validate_array (item : Schema) :
    (array item).validate c slot =
      match Checks.items slot with
      | .error f => .error f
      | .ok [] => .ok (some (.array []))
      | .ok items =>
        match c.descend with
        | .error f => .error f
        | .ok child =>
          (validateItems (fun schema slot => schema.validate child slot) item items).map
            fun l => some (.array l) := by
  rw [validate_eq]
  cases c.descend <;> rfl

theorem validate_record (declarations : List (String × Schema)) :
    (record declarations).validate c slot =
      match Checks.properties slot with
      | .error f => .error f
      | .ok own =>
        if declarations.isEmpty then .ok slot
        else
          match c.descend with
          | .error f => .error f
          | .ok child =>
            (validateFields (fun schema slot => schema.validate child slot) own
              (Entries.standing declarations)).map fun results =>
                some (.object (merge own results)) := by
  rw [validate_eq]
  cases c.descend <;> rfl

theorem validate_and (first second : Schema) :
    (and first second).validate c slot =
      match first.validate c slot with
      | .error f => .error f
      | .ok narrowed => second.validate c narrowed := by
  simp only [validate_eq (and first second) c, validate_eq first c, validate_eq second c]
  rfl

theorem validate_or (first second : Schema) :
    (or first second).validate c slot =
      match first.validate c slot with
      | .error _ => second.validate c slot
      | .ok r => .ok r := by
  simp only [validate_eq (or first second) c, validate_eq first c, validate_eq second c]
  rfl

theorem validate_optional (inner : Schema) :
    (optional inner).validate c slot =
      match slot with
      | none => .ok none
      | some v => inner.validate c (some v) := by
  simp only [validate_eq (optional inner) c, validate_eq inner c]
  rfl

@[simp] theorem validate_nullable_null (inner : Schema) :
    (nullable inner).validate c (some .null) = .ok (some .null) := validate_eq ..

variable {slot} in
theorem validate_nullable (inner : Schema) (h : slot ≠ some .null) :
    (nullable inner).validate c slot = inner.validate c slot := by
  rw [validate_eq, validate_eq inner, validateLayer]
  exact h

theorem validate_union (discriminant : String) (declarations : List (String × Schema)) :
    (union discriminant declarations).validate c slot =
      match Checks.tag discriminant slot with
      | .error f => .error f
      | .ok (some (.string tag)) =>
        match (Entries.standing declarations).lookup tag with
        | some variant => variant.validate c slot
        | none =>
          .error (Checks.badTag discriminant (.unknownKey tag (declaredNames declarations)))
      | .ok other =>
        .error (Checks.badTag discriminant (.wrongKind "string" (.ofSlot other))) := by
  rw [validate_eq, validateLayer]
  cases Checks.tag discriminant slot with
  | error f => rfl
  | ok t =>
      cases t with
      | none => rfl
      | some v =>
          cases v with
          | string tag =>
              simp only [lookup_variantRuns]
              cases (Entries.standing declarations).lookup tag with
              | none => rfl
              | some variant => exact (validate_eq variant c slot).symm
          | _ => rfl

variable {c slot} in
theorem validate_union_of_tag {discriminant tag : String} {declarations : List (String × Schema)}
    (h : Checks.tag discriminant slot = .ok (some (.string tag))) :
    (union discriminant declarations).validate c slot =
      match (Entries.standing declarations).lookup tag with
      | some variant => variant.validate c slot
      | none => .error (Checks.badTag discriminant (.unknownKey tag (declaredNames declarations))) := by
  rw [validate_union, h]

variable {c slot} in
theorem validate_union_of_other {discriminant : String} {declarations : List (String × Schema)}
    {other : Slot} (h : Checks.tag discriminant slot = .ok other)
    (noTag : ∀ tag, other ≠ some (.string tag)) :
    (union discriminant declarations).validate c slot =
      .error (Checks.badTag discriminant (.wrongKind "string" (.ofSlot other))) := by
  rw [validate_union, h]
  split
  next he => cases he
  next tag he => exact absurd (Except.ok.inj he) (noTag tag)
  next he => rw [← Except.ok.inj he]

theorem validate_ref (name : String) :
    (ref name).validate c slot =
      match c.registry with
      | none => .error (.atRoot .missingRegistry (.noRegistry name))
      | some r =>
        match r.get? name with
        | none => .error (.atRoot .missingReference (.unboundReference name))
        | some target =>
          match c.descend with
          | .error f => .error f
          | .ok child => target.validate child slot := by
  rw [validate_eq]
  cases c.descend <;> rfl

@[simp] theorem validate_stored (schema : Schema) :
    (stored schema).validate c slot = schema.validate c slot := by
  simp only [validate_eq (stored schema) c, validate_eq schema c, validateLayer]

end Rules

section Ends

variable {c : Context} {slot r : Slot} {f : Failure}

theorem validate_array_eq_ok_iff {item : Schema} :
    (array item).validate c slot = .ok r ↔
      ∃ items new, slot = some (.array items) ∧ r = some (.array new) ∧
        (items = [] ∧ new = [] ∨
          ∃ child, items ≠ [] ∧ c.descend = .ok child ∧
            validateItems (fun schema slot => schema.validate child slot) item items = .ok new) := by
  rw [validate_array]
  constructor
  · intro h
    cases hi : Checks.items slot with
    | error g => simp [hi] at h
    | ok items =>
        have hslot := (Checks.items_eq_ok_iff slot items).1 hi
        cases items with
        | nil =>
            have hr : some (.array []) = r := by simpa [hi] using h
            exact ⟨[], [], hslot, hr.symm, .inl ⟨rfl, rfl⟩⟩
        | cons v items =>
            cases hc : c.descend with
            | error g => simp [hi, hc] at h
            | ok child =>
                simp only [hi, hc] at h
                obtain ⟨new, hn, hr⟩ := (Outcome.map_eq_ok_iff _ _ _).1 h
                exact ⟨v :: items, new, hslot, hr.symm, .inr ⟨child, by simp, rfl, hn⟩⟩
  · rintro ⟨items, new, rfl, rfl, ⟨rfl, rfl⟩ | ⟨child, hne, hc, hn⟩⟩
    · rfl
    · cases items with
      | nil => exact absurd rfl hne
      | cons v items => simp only [Checks.items, hc, hn, Except.map]

theorem validate_array_eq_error_iff {item : Schema} :
    (array item).validate c slot = .error f ↔
      Checks.items slot = .error f ∨
        ∃ items, slot = some (.array items) ∧ items ≠ [] ∧
          (c.descend = .error f ∨
            ∃ child, c.descend = .ok child ∧
              validateItems (fun schema slot => schema.validate child slot) item items =
                .error f) := by
  rw [validate_array]
  cases hi : Checks.items slot with
  | error g =>
      have hslot : ∀ items, slot ≠ some (.array items) := fun items he => by
        simp [(Checks.items_eq_ok_iff slot items).2 he] at hi
      simp [hslot]
  | ok items =>
      have hslot := (Checks.items_eq_ok_iff slot items).1 hi
      subst hslot
      cases items with
      | nil => simp
      | cons v items =>
          cases hc : c.descend with
          | error g => simp
          | ok child => simp

theorem validate_record_eq_ok_iff {declarations : List (String × Schema)} :
    (record declarations).validate c slot = .ok r ↔
      ∃ v own, slot = some v ∧ v.properties? = some own ∧
        (declarations = [] ∧ r = some v ∨
          ∃ child results, declarations ≠ [] ∧ c.descend = .ok child ∧
            validateFields (fun schema slot => schema.validate child slot) own
              (Entries.standing declarations) = .ok results ∧
            r = some (.object (merge own results))) := by
  rw [validate_record]
  constructor
  · intro h
    cases hp : Checks.properties slot with
    | error g => simp [hp] at h
    | ok own =>
        obtain ⟨v, rfl, properties⟩ := (Checks.properties_eq_ok_iff slot own).1 hp
        refine ⟨v, own, rfl, properties, ?_⟩
        cases declarations with
        | nil => exact .inl ⟨rfl, by simpa [hp, eq_comm] using h⟩
        | cons d declarations =>
            cases hc : c.descend with
            | error g => simp [hp, hc] at h
            | ok child =>
                obtain ⟨results, hres, hr⟩ :=
                  (Outcome.map_eq_ok_iff _ _ _).1 (by simpa [hp, hc] using h)
                exact .inr ⟨child, results, by simp, rfl, hres, hr.symm⟩
  · rintro ⟨v, own, rfl, properties, ⟨rfl, rfl⟩ | ⟨child, results, hne, hc, hres, rfl⟩⟩
    · simp [(Checks.properties_eq_ok_iff _ _).2 ⟨v, rfl, properties⟩]
    · have hp := (Checks.properties_eq_ok_iff _ _).2 ⟨v, rfl, properties⟩
      simp [hp, hne, hc, hres, Except.map]

theorem validate_record_eq_error_iff {declarations : List (String × Schema)} :
    (record declarations).validate c slot = .error f ↔
      Checks.properties slot = .error f ∨
        ∃ v own, slot = some v ∧ v.properties? = some own ∧ declarations ≠ [] ∧
          (c.descend = .error f ∨
            ∃ child, c.descend = .ok child ∧
              validateFields (fun schema slot => schema.validate child slot) own
                (Entries.standing declarations) = .error f) := by
  rw [validate_record]
  cases hp : Checks.properties slot with
  | error g =>
      have hslot : ∀ v own, slot = some v → v.properties? ≠ some own := fun v own he ho => by
        simp [(Checks.properties_eq_ok_iff slot own).2 ⟨v, he, ho⟩] at hp
      simp only [Except.error.injEq, iff_self_or]
      rintro ⟨v, own, he, ho, -⟩
      exact absurd ho (hslot v own he)
  | ok own =>
      obtain ⟨v, rfl, properties⟩ := (Checks.properties_eq_ok_iff slot own).1 hp
      cases declarations with
      | nil => simp
      | cons d declarations =>
          cases hc : c.descend with
          | error g => simp [properties]
          | ok child => simp [properties]

theorem validate_and_eq_ok_iff {first second : Schema} :
    (and first second).validate c slot = .ok r ↔
      ∃ narrowed, first.validate c slot = .ok narrowed ∧ second.validate c narrowed = .ok r := by
  rw [validate_and]
  cases first.validate c slot <;> simp

theorem validate_and_eq_error_iff {first second : Schema} :
    (and first second).validate c slot = .error f ↔
      first.validate c slot = .error f ∨
        ∃ narrowed, first.validate c slot = .ok narrowed ∧
          second.validate c narrowed = .error f := by
  rw [validate_and]
  cases first.validate c slot <;> simp

theorem validate_or_eq_ok_iff {first second : Schema} :
    (or first second).validate c slot = .ok r ↔
      first.validate c slot = .ok r ∨
        ∃ g, first.validate c slot = .error g ∧ second.validate c slot = .ok r := by
  rw [validate_or]
  cases first.validate c slot <;> simp

theorem validate_or_eq_error_iff {first second : Schema} :
    (or first second).validate c slot = .error f ↔
      ∃ g, first.validate c slot = .error g ∧ second.validate c slot = .error f := by
  rw [validate_or]
  cases first.validate c slot <;> simp

theorem validate_union_eq_ok_iff {discriminant : String} {declarations : List (String × Schema)} :
    (union discriminant declarations).validate c slot = .ok r ↔
      ∃ tag variant, Checks.tag discriminant slot = .ok (some (.string tag)) ∧
        (Entries.standing declarations).lookup tag = some variant ∧
        variant.validate c slot = .ok r := by
  rw [validate_union]
  split
  next f hf => simp [hf]
  next tag ht =>
    cases hv : (Entries.standing declarations).lookup tag with
    | none =>
        simp only [reduceCtorEq, false_iff]
        rintro ⟨t, variant, he, hl, -⟩
        have htag : tag = t := by simpa [ht] using he
        simp [← htag, hv] at hl
    | some variant =>
        constructor
        · exact fun h => ⟨tag, variant, ht, hv, h⟩
        · rintro ⟨t, w, he, hl, h⟩
          have htag : tag = t := by simpa [ht] using he
          have hw : variant = w := by simpa [← htag, hv] using hl
          exact hw ▸ h
  next other hne ho =>
    simp only [reduceCtorEq, false_iff]
    rintro ⟨t, variant, he, -⟩
    exact hne t (by simpa [ho] using he)

theorem error_of_union {discriminant : String} {declarations : List (String × Schema)}
    (h : (union discriminant declarations).validate c slot = .error f) :
    Checks.tag discriminant slot = .error f ∨
      (∃ v, slot = some v ∧
        ((∃ other, f = Checks.badTag discriminant (.wrongKind "string" (.ofSlot other))) ∨
          ∃ tag, f = Checks.badTag discriminant (.unknownKey tag (declaredNames declarations)))) ∨
      ∃ tag variant, Checks.tag discriminant slot = .ok (some (.string tag)) ∧
        (Entries.standing declarations).lookup tag = some variant ∧
        variant.validate c slot = .error f := by
  rw [validate_union] at h
  cases ht : Checks.tag discriminant slot with
  | error g => exact .inl (by simpa [ht] using h)
  | ok other =>
      refine .inr ?_
      cases slot with
      | none => simp [Checks.tag_none] at ht
      | some v =>
          simp only [ht] at h
          split at h
          next heq => cases heq
          next tag heq =>
            cases heq
            split at h
            next variant hv => exact .inr ⟨tag, variant, rfl, hv, h⟩
            next => exact .inl ⟨v, rfl, .inr ⟨tag, by simpa [eq_comm] using h⟩⟩
          next => exact .inl ⟨v, rfl, .inl ⟨_, by simpa [eq_comm] using h⟩⟩

theorem validate_ref_eq_ok_iff {name : String} :
    (ref name).validate c slot = .ok r ↔
      ∃ registry target child, c.registry = some registry ∧ registry.get? name = some target ∧
        c.descend = .ok child ∧ target.validate child slot = .ok r := by
  rw [validate_ref]
  cases c.registry with
  | none => simp
  | some registry =>
      cases ht : registry.get? name with
      | none => simp [ht]
      | some target => cases hc : c.descend <;> simp [ht]

theorem validate_ref_eq_error_iff {name : String} :
    (ref name).validate c slot = .error f ↔
      (c.registry = none ∧ f = .atRoot .missingRegistry (.noRegistry name)) ∨
        ∃ registry, c.registry = some registry ∧
          (registry.get? name = none ∧ f = .atRoot .missingReference (.unboundReference name) ∨
            ∃ target, registry.get? name = some target ∧
              (c.descend = .error f ∨
                ∃ child, c.descend = .ok child ∧ target.validate child slot = .error f)) := by
  rw [validate_ref]
  cases c.registry with
  | none => simp [eq_comm]
  | some registry =>
      cases ht : registry.get? name with
      | none => simp [ht, eq_comm]
      | some target => cases hc : c.descend <;> simp [ht]

end Ends

end JsonShape.Schema
