import JsonShape.Proofs.Preservation
import JsonShape.Proofs.Resolution

/-!
Which schemas read arrays as objects. Only a record with declared fields does, so a schema that neither
holds one nor reaches one through its references returns the slot as it was given.
-/

namespace JsonShape.Schema

/-- The second schema stands in the first one, or in what references there stand for, at any depth. -/
inductive Includes (bound? : String → Option Schema) : Schema → Schema → Prop where
  | self (schema : Schema) : Includes bound? schema schema
  | outer {whole part schema : Schema} (isPart : part ∈ whole.outerParts)
      (inside : Includes bound? part schema) : Includes bound? whole schema
  | inner {whole part schema : Schema} (isPart : part ∈ whole.innerParts)
      (inside : Includes bound? part schema) : Includes bound? whole schema
  | target {name : String} {target schema : Schema} (bound : bound? name = some target)
      (inside : Includes bound? target schema) : Includes bound? (ref name) schema

theorem contains_of_includes {bound? : String → Option Schema} {whole schema : Schema}
    (h : Includes bound? whole schema) :
    whole.Contains schema ∨ ∃ name target, bound? name = some target ∧ target.Contains schema := by
  induction h with
  | self schema => exact .inl (.self schema)
  | outer isPart _ ih => exact ih.imp_left (.outer isPart)
  | inner isPart _ ih => exact ih.imp_left (.inner isPart)
  | target bound _ ih => exact .inr (ih.elim (fun inside => ⟨_, _, bound, inside⟩) id)

theorem contains_of_includes_of_refFree {bound? : String → Option Schema} {whole schema : Schema}
    (h : Includes bound? whole schema) (refFree : ∀ name, ¬whole.Contains (ref name)) :
    whole.Contains schema := by
  induction h with
  | self schema => exact .self schema
  | outer isPart _ ih => exact .outer isPart (ih fun name inside => refFree name (.outer isPart inside))
  | inner isPart _ ih => exact .inner isPart (ih fun name inside => refFree name (.inner isPart inside))
  | target => exact absurd (.self _) (refFree _)

/-- The schema may read an array as an object: it includes a record with declared fields. -/
def MayReread (bound? : String → Option Schema) (schema : Schema) : Prop :=
  ∃ declarations, declarations ≠ [] ∧ Includes bound? schema (record declarations)

theorem not_mayReread_of_leaf {bound? : String → Option Schema} {schema : Schema}
    (outer : schema.outerParts = []) (inner : schema.innerParts = [])
    (notRef : ∀ name, schema ≠ ref name) (notRecord : ∀ declarations, schema ≠ record declarations) :
    ¬MayReread bound? schema := by
  rintro ⟨declarations, -, inside⟩
  cases inside with
  | self => exact notRecord declarations rfl
  | outer isPart => simp [outer] at isPart
  | inner isPart => simp [inner] at isPart
  | target => exact notRef _ rfl

namespace MayReread

variable {bound? : String → Option Schema} {whole part : Schema}

theorem outer (isPart : part ∈ whole.outerParts) (h : MayReread bound? part) : MayReread bound? whole := by
  obtain ⟨declarations, declared, inside⟩ := h
  exact ⟨declarations, declared, .outer isPart inside⟩

theorem inner (isPart : part ∈ whole.innerParts) (h : MayReread bound? part) : MayReread bound? whole := by
  obtain ⟨declarations, declared, inside⟩ := h
  exact ⟨declarations, declared, .inner isPart inside⟩

theorem target {name : String} {target : Schema} (bound : bound? name = some target)
    (h : MayReread bound? target) : MayReread bound? (ref name) := by
  obtain ⟨declarations, declared, inside⟩ := h
  exact ⟨declarations, declared, .target bound inside⟩

end MayReread

variable {c : Context} {slot r : Slot}

theorem unchanged_of_below
    (below : ∀ child, c.descend = .ok child → ∀ (schema : Schema) slot r,
      ¬MayReread child.bound? schema → schema.validate child slot = .ok r → r = slot)
    (schema : Schema) (still : ¬MayReread c.bound? schema) (h : schema.validate c slot = .ok r) :
    r = slot := by
  induction schema generalizing slot r with
  | string =>
      rw [validate_string] at h
      exact eq_of_check (fun s hs => (Checks.string_eq_ok_iff slot s).1 hs) h
  | number =>
      rw [validate_number] at h
      exact eq_of_check (fun n hn => (Checks.number_eq_ok_iff slot n).1 hn) h
  | boolean =>
      rw [validate_boolean] at h
      exact eq_of_check (fun b hb => (Checks.boolean_eq_ok_iff slot b).1 hb) h
  | any =>
      rw [validate_any] at h
      exact (Except.ok.inj h).symm
  | exact expected =>
      rw [validate_exact] at h
      exact eq_of_check (fun v hv => Checks.eq_of_exactly hv) h
  | oneOf allowed =>
      rw [validate_oneOf] at h
      exact eq_of_check (fun v hv => Checks.eq_of_among hv) h
  | keyOf keys =>
      rw [validate_keyOf] at h
      exact eq_of_check (fun s hs => ((Checks.key_eq_ok_iff keys slot s).1 hs).1) h
  | array item =>
      obtain ⟨items, new, rfl, rfl, ⟨rfl, rfl⟩ | ⟨child, -, hc, hn⟩⟩ := validate_array_eq_ok_iff.1 h
      · rfl
      · have stillBelow : ¬MayReread child.bound? item := by
          rw [Context.bound?_of_descend hc]
          exact fun inside => still (.inner (List.mem_singleton_self item) inside)
        obtain ⟨length, parts⟩ := validateItems_eq_ok_iff.1 hn
        have same : new = items := by
          refine List.ext_getElem? fun i => ?_
          cases hi : items[i]? with
          | none => rwa [List.getElem?_eq_none_iff, length, ← List.getElem?_eq_none_iff]
          | some v =>
              obtain ⟨s, hs, hi'⟩ := parts i v hi
              obtain rfl := below child hc item _ _ stillBelow hs
              exact hi'
        rw [same]
  | record declarations =>
      obtain ⟨v, own, rfl, -, ⟨-, rfl⟩ | ⟨child, results, declared, -⟩⟩ := validate_record_eq_ok_iff.1 h
      · rfl
      · exact absurd ⟨declarations, declared, .self _⟩ still
  | and first second ihFirst ihSecond =>
      obtain ⟨narrowed, hf, hs⟩ := validate_and_eq_ok_iff.1 h
      obtain rfl := ihFirst (fun inside => still (inside.outer (by simp [outerParts]))) hf
      exact ihSecond (fun inside => still (inside.outer (by simp [outerParts]))) hs
  | or first second ihFirst ihSecond =>
      obtain hf | ⟨-, -, hs⟩ := validate_or_eq_ok_iff.1 h
      · exact ihFirst (fun inside => still (inside.outer (by simp [outerParts]))) hf
      · exact ihSecond (fun inside => still (inside.outer (by simp [outerParts]))) hs
  | optional inner ih =>
      rw [validate_optional] at h
      cases slot with
      | none => exact (Except.ok.inj h).symm
      | some v => exact ih (fun inside => still (inside.outer (List.mem_singleton_self inner))) h
  | nullable inner ih =>
      by_cases hn : slot = some .null
      · rw [hn, validate_nullable_null] at h
        rw [hn]
        exact (Except.ok.inj h).symm
      · rw [validate_nullable c inner hn] at h
        exact ih (fun inside => still (inside.outer (List.mem_singleton_self inner))) h
  | union discriminant declarations ih =>
      obtain ⟨tag, variant, -, hv, hr⟩ := validate_union_eq_ok_iff.1 h
      exact ih _ (Entries.mem_of_lookup_standing hv)
        (fun inside => still (inside.outer (outerPart_of_variant hv))) hr
  | ref name =>
      obtain ⟨registry, target, child, hreg, bound, hc, hr⟩ := validate_ref_eq_ok_iff.1 h
      refine below child hc target slot r ?_ hr
      rw [Context.bound?_of_descend hc]
      rw [← Context.bound?_of_registry hreg] at bound
      exact fun inside => still (inside.target bound)
  | stored schema ih =>
      rw [validate_stored] at h
      exact ih (fun inside => still (inside.outer (List.mem_singleton_self schema))) h

theorem unchanged_of_validate {schema : Schema} (still : ¬MayReread c.bound? schema)
    (h : schema.validate c slot = .ok r) : r = slot := by
  induction c using Context.induction generalizing schema slot r with
  | step c below =>
      exact unchanged_of_below (fun child hc _ _ _ still h => below child hc still h) schema still h

end JsonShape.Schema
