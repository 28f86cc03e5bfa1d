import JsonShape.Proofs.Resolution
import JsonShape.Proofs.Value.Navigation

/-!
Failing runs as derivations. A failure arises where a check refuses the slot or its tag, where a level
further in would exceed the limit, or where a reference does not resolve; parts hand it on, one segment
longer where they see an item or a property. What an induction on the derivation shows of failures holds
of every failing run.
-/

namespace JsonShape.Schema

open Value (child?_field)

/-- Validation of the slot by the schema fails, at first hand or through a part. -/
inductive Fails : Context → Schema → Slot → Failure → Prop where
  | refused {c : Context} {schema : Schema} {slot : Slot} {f : Failure} (root : f.path = .root)
      (code : f.code = .invalidType ∨ f.code = .invalidValue) : Fails c schema slot f
  | badTag {c : Context} {schema : Schema} {slot : Slot} (discriminant : String) (cause : Cause) :
      Fails c schema slot (Checks.badTag discriminant cause)
  | limit {c : Context} {schema : Schema} {v : Value} {own : Entries Value} {f : Failure}
      (properties : v.properties? = some own) (descend : c.descend = .error f) :
      Fails c schema (some v) f
  | unresolved {c : Context} {name : String} {slot : Slot} {f : Failure}
      (resolve : c.resolve name = .error f) : Fails c (ref name) slot f
  | outer {c : Context} {whole part : Schema} {slot : Slot} {f : Failure}
      (isPart : part ∈ whole.outerParts) (inside : Fails c part slot f) : Fails c whole slot f
  /-- The second schema of an `and` fails on what the first returned. -/
  | second {c : Context} {first second : Schema} {slot narrowed : Slot} {f : Failure}
      (run : first.validate c slot = .ok narrowed) (inside : Fails c second narrowed f) :
      Fails c (and first second) slot f
  | inner {c child : Context} {whole part : Schema} {v : Value} {own : Entries Value} {s : Segment}
      {f : Failure} (properties : v.properties? = some own) (descend : c.descend = .ok child)
      (isPart : part ∈ whole.innerParts) (inside : Fails child part (v.child? s) f) :
      Fails c whole (some v) (f.within s)
  | target {c child : Context} {name : String} {target : Schema} {slot : Slot} {f : Failure}
      (resolve : c.resolve name = .ok (target, child)) (inside : Fails child target slot f) :
      Fails c (ref name) slot f

variable {c : Context} {slot : Slot} {f : Failure}

theorem fails_wrongKind {schema : Schema} (expected : String) :
    Fails c schema slot (.wrongKind expected slot) := .refused rfl (.inl rfl)

theorem fails_invalidValue {schema : Schema} (cause : Cause) :
    Fails c schema slot (.atRoot .invalidValue cause) := .refused rfl (.inr rfl)

theorem fails_of_below
    (below : ∀ child, c.descend = .ok child →
      ∀ (schema : Schema) slot f, schema.validate child slot = .error f → Fails child schema slot f)
    (schema : Schema) (h : schema.validate c slot = .error f) : Fails c schema slot f := by
  induction schema generalizing slot f with
  | string =>
      rw [validate_string, Outcome.map_eq_error_iff] at h
      rw [Checks.error_of_string h]
      exact fails_wrongKind _
  | number =>
      rw [validate_number, Outcome.map_eq_error_iff] at h
      rw [Checks.error_of_number h]
      exact fails_wrongKind _
  | boolean =>
      rw [validate_boolean, Outcome.map_eq_error_iff] at h
      rw [Checks.error_of_boolean h]
      exact fails_wrongKind _
  | any => simp at h
  | exact expected =>
      rw [validate_exact, Outcome.map_eq_error_iff] at h
      rw [Checks.error_of_exactly h]
      exact fails_invalidValue _
  | oneOf allowed =>
      rw [validate_oneOf, Outcome.map_eq_error_iff] at h
      rw [Checks.error_of_among h]
      exact fails_invalidValue _
  | keyOf keys =>
      rw [validate_keyOf, Outcome.map_eq_error_iff] at h
      obtain rfl | ⟨s, rfl⟩ := Checks.error_of_key h
      · exact fails_wrongKind _
      · exact fails_invalidValue _
  | array item =>
      obtain hi | ⟨items, rfl, -, hc | ⟨child, hc, hn⟩⟩ := validate_array_eq_error_iff.1 h
      · rw [Checks.error_of_items hi]
        exact fails_wrongKind _
      · exact .limit (v := .array items) rfl hc
      · obtain ⟨i, v, g, hv, hg, rfl, -⟩ := validateItems_eq_error_iff.1 hn
        have hf := below child hc item (some v) g hg
        rw [← hv] at hf
        exact .inner (v := .array items) (s := .index i) rfl hc (List.mem_singleton_self item) hf
  | record declarations =>
      obtain hp | ⟨v, own, rfl, properties, -, hc | ⟨child, hc, hn⟩⟩ :=
        validate_record_eq_error_iff.1 h
      · rw [Checks.error_of_properties hp]
        exact fails_wrongKind _
      · exact .limit properties hc
      · obtain ⟨i, d, g, hi, hg, rfl, -⟩ := validateFields_eq_error_iff.1 hn
        rw [← child?_field properties d.1] at hg
        exact .inner properties hc (innerPart_of_field (List.mem_of_getElem? hi))
          (below child hc d.2 _ g hg)
  | and first second ihFirst ihSecond =>
      obtain hf | ⟨narrowed, hf, hs⟩ := validate_and_eq_error_iff.1 h
      · exact .outer (List.mem_cons_self ..) (ihFirst hf)
      · exact .second hf (ihSecond hs)
  | or first second ihFirst ihSecond =>
      obtain ⟨g, -, hs⟩ := validate_or_eq_error_iff.1 h
      exact .outer (by simp [outerParts]) (ihSecond hs)
  | optional inner ih =>
      rw [validate_optional] at h
      cases slot with
      | none => cases h
      | some v => exact .outer (List.mem_singleton_self inner) (ih h)
  | nullable inner ih =>
      by_cases hn : slot = some .null
      · rw [hn, validate_nullable_null] at h
        cases h
      · exact .outer (List.mem_singleton_self inner) (ih (validate_nullable c inner hn ▸ h))
  | union discriminant declarations ih =>
      obtain ht | ⟨v, rfl, ⟨-, rfl⟩ | ⟨-, rfl⟩⟩ | ⟨tag, variant, -, hv, hf⟩ := error_of_union h
      · rw [Checks.error_of_tag ht]
        exact fails_wrongKind _
      · exact .badTag discriminant _
      · exact .badTag discriminant _
      · exact .outer (outerPart_of_variant hv) (ih _ (Entries.mem_of_lookup_standing hv) hf)
  | ref name =>
      rw [validate_ref_eq] at h
      cases hr : c.resolve name with
      | error g =>
          have hgf : g = f := by simpa [hr] using h
          exact .unresolved (hgf ▸ hr)
      | ok resolved =>
          obtain ⟨target, child⟩ := resolved
          have hc := (Context.resolve_eq_ok_iff.1 hr).2
          exact .target hr (below child hc target slot f (by simpa [hr] using h))
  | stored schema ih =>
      exact .outer (List.mem_singleton_self schema) (ih (validate_stored c slot schema ▸ h))

theorem fails_of_validate {schema : Schema} (h : schema.validate c slot = .error f) :
    Fails c schema slot f := by
  induction c using Context.induction generalizing schema slot f with
  | step c below => exact fails_of_below (fun child hc _ _ _ h => below child hc h) schema h

end JsonShape.Schema
