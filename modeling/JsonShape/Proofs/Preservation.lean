import JsonShape.Proofs.Checks
import JsonShape.Proofs.Rules
import JsonShape.Proofs.Value.Refinement

/-!
Validation keeps what it is given. A relation that passes from parts to arrays and objects relates every
result to its input; one such relation says that absent slots stay absent, present ones stay present, and
a result differs from its input only by arrays that a record has read as objects.
-/

namespace JsonShape.Schema

open Value (ArrayFree Keeps Refines refines_of_properties arrayFree_of_lookup)

variable {c : Context} {slot r : Slot}

theorem eq_of_check {α : Type} {check : Outcome α} {found : α → Value}
    (given : ∀ a, check = .ok a → slot = some (found a))
    (h : (check.map fun a => some (found a)) = .ok r) : r = slot := by
  obtain ⟨a, ha, rfl⟩ := (Outcome.map_eq_ok_iff _ _ _).1 h
  exact (given a ha).symm

/-- A relation of results to inputs that holds of a value and itself, composes, and passes from items to
arrays and from the results of fields to the object that a record makes of them. -/
structure Inherited (rel : Value → Value → Prop) : Prop where
  refl : ∀ v, rel v v
  trans : ∀ {a b c}, rel a b → rel b c → rel a c
  array : ∀ {new old : List Value}, new.length = old.length →
    (∀ (i : Nat) v w, new[i]? = some v → old[i]? = some w → rel v w) →
    rel (.array new) (.array old)
  record : ∀ {v : Value} {own : Entries Value} {results : List (String × Slot)},
    v.properties? = some own → (Entries.names results).Nodup →
    (∀ e ∈ results, Option.Rel rel e.2 (own.lookup e.1)) → rel (.object (merge own results)) v

namespace Inherited

variable {rel : Value → Value → Prop}

theorem slot_refl (inherited : Inherited rel) (slot : Slot) : Option.Rel rel slot slot := by
  cases slot with
  | none => exact .none
  | some v => exact .some (inherited.refl v)

theorem slot_trans (inherited : Inherited rel) {a b : Slot} (hab : Option.Rel rel a b)
    (hb : Option.Rel rel b slot) : Option.Rel rel a slot := by
  cases hab with
  | none => exact hb
  | some hab =>
      cases hb with
      | some hb => exact .some (inherited.trans hab hb)

theorem of_check (inherited : Inherited rel) {α : Type} {check : Outcome α} {found : α → Value}
    (given : ∀ a, check = .ok a → slot = some (found a))
    (h : (check.map fun a => some (found a)) = .ok r) : Option.Rel rel r slot := by
  rw [eq_of_check given h]
  exact inherited.slot_refl slot

theorem of_items (inherited : Inherited rel) {child : Run} {item : Schema} {items new : List Value}
    (kept : ∀ v r, child item (some v) = .ok r → Option.Rel rel r (some v))
    (h : validateItems child item items = .ok new) : rel (.array new) (.array items) := by
  obtain ⟨length, parts⟩ := validateItems_eq_ok_iff.1 h
  refine inherited.array length fun i v w hv hw => ?_
  obtain ⟨s, hs, hn⟩ := parts i w hw
  cases kept w s hs with
  | some related =>
      rw [hv] at hn
      have hvs := Option.some.inj hn
      rw [hvs]
      exact related

theorem of_fields {child : Run} {own : Entries Value} {fields : Entries Schema}
    {results : List (String × Slot)} (distinct : (Entries.names fields).Nodup)
    (kept : ∀ schema slot r, child schema slot = .ok r → Option.Rel rel r slot)
    (h : validateFields child own fields = .ok results) {e : String × Slot} (he : e ∈ results) :
    Option.Rel rel e.2 (own.lookup e.1) := by
  have names := names_results h
  have hn : e.1 ∈ Entries.names fields := names ▸ List.mem_map_of_mem he
  obtain ⟨schema, hs⟩ := (Entries.mem_names_iff _ _).1 hn
  obtain ⟨s, hr, hl⟩ := lookup_results h hs
  have hres : results.lookup e.1 = some e.2 :=
    Entries.lookup_of_mem (names.symm ▸ distinct) he
  rw [hl] at hres
  rw [← Option.some.inj hres]
  exact kept schema _ s hr

theorem of_below (inherited : Inherited rel)
    (below : ∀ child, c.descend = .ok child →
      ∀ (schema : Schema) slot r, schema.validate child slot = .ok r → Option.Rel rel r slot)
    (schema : Schema) (h : schema.validate c slot = .ok r) : Option.Rel rel r slot := by
  induction schema generalizing slot r with
  | string =>
      rw [validate_string] at h
      exact inherited.of_check (fun s hs => (Checks.string_eq_ok_iff slot s).1 hs) h
  | number =>
      rw [validate_number] at h
      exact inherited.of_check (fun n hn => (Checks.number_eq_ok_iff slot n).1 hn) h
  | boolean =>
      rw [validate_boolean] at h
      exact inherited.of_check (fun b hb => (Checks.boolean_eq_ok_iff slot b).1 hb) h
  | any =>
      rw [validate_any] at h
      cases h
      exact inherited.slot_refl slot
  | exact expected =>
      rw [validate_exact] at h
      exact inherited.of_check (fun v hv => Checks.eq_of_exactly hv) h
  | oneOf allowed =>
      rw [validate_oneOf] at h
      exact inherited.of_check (fun v hv => Checks.eq_of_among hv) h
  | keyOf keys =>
      rw [validate_keyOf] at h
      exact inherited.of_check (fun s hs => ((Checks.key_eq_ok_iff keys slot s).1 hs).1) h
  | array item =>
      obtain ⟨items, new, rfl, rfl, ⟨rfl, rfl⟩ | ⟨child, -, hc, hn⟩⟩ :=
        validate_array_eq_ok_iff.1 h
      · exact inherited.slot_refl _
      · exact .some (inherited.of_items (fun v r => below child hc item (some v) r) hn)
  | record declarations =>
      obtain ⟨v, own, rfl, properties, ⟨-, rfl⟩ | ⟨child, results, -, hc, hres, rfl⟩⟩ :=
        validate_record_eq_ok_iff.1 h
      · exact inherited.slot_refl _
      · have distinct := Entries.nodup_names_standing declarations
        exact .some (inherited.record properties (names_results hres ▸ distinct) fun e he =>
          of_fields distinct (below child hc) hres he)
  | and first second ihFirst ihSecond =>
      obtain ⟨narrowed, hf, hs⟩ := validate_and_eq_ok_iff.1 h
      exact inherited.slot_trans (ihSecond hs) (ihFirst hf)
  | or first second ihFirst ihSecond =>
      obtain hf | ⟨-, -, hs⟩ := validate_or_eq_ok_iff.1 h
      · exact ihFirst hf
      · exact ihSecond hs
  | optional inner ih =>
      rw [validate_optional] at h
      cases slot with
      | none =>
          cases h
          exact .none
      | some v => exact ih h
  | nullable inner ih =>
      by_cases hn : slot = some .null
      · rw [hn, validate_nullable_null] at h
        cases h
        exact hn ▸ inherited.slot_refl slot
      · exact ih (validate_nullable c inner hn ▸ h)
  | union discriminant declarations ih =>
      obtain ⟨tag, variant, -, hv, hr⟩ := validate_union_eq_ok_iff.1 h
      exact ih _ (Entries.mem_of_lookup_standing hv) hr
  | ref name =>
      obtain ⟨registry, target, child, -, -, hc, hr⟩ := validate_ref_eq_ok_iff.1 h
      exact below child hc target slot r hr
  | stored schema ih => exact ih (validate_stored c slot schema ▸ h)

theorem of_validate (inherited : Inherited rel) {schema : Schema}
    (h : schema.validate c slot = .ok r) : Option.Rel rel r slot := by
  induction c using Context.induction generalizing schema slot r with
  | step c below =>
      exact inherited.of_below (fun child hc _ _ _ h => below child hc h) schema h

end Inherited

theorem keeps_merge {own : Entries Value} {results : List (String × Slot)}
    (distinct : (Entries.names results).Nodup)
    (kept : ∀ e ∈ results, Option.Rel Keeps e.2 (own.lookup e.1)) {v : Value}
    (properties : v.properties? = some own) : Keeps (.object (merge own results)) v := by
  refine ⟨refines_of_properties properties fun key => ?_, fun free => ?_⟩
  · rw [lookup_merge distinct]
    cases hl : results.lookup key with
    | none =>
        cases own.lookup key with
        | none => exact .none
        | some w => exact .some (.refl w)
    | some s =>
        have hk := kept (key, s) (Entries.mem_of_lookup hl)
        cases s with
        | none =>
            cases ho : own.lookup key with
            | none => exact .none
            | some w => simp [ho] at hk
        | some u =>
            cases ho : own.lookup key with
            | none => simp [ho] at hk
            | some w =>
                rw [ho] at hk
                exact .some (Option.rel_some_some.1 hk).refines
  · cases v with
    | object members =>
        have ho : members = own := by simpa [Value.properties?] using properties
        subst ho
        rw [merge_eq_self fun e he u hu => ?_]
        have hk := kept e he
        rw [hu] at hk
        cases hw : members.lookup e.1 with
        | none => simp [hw] at hk
        | some w =>
            rw [hw] at hk
            rw [(Option.rel_some_some.1 hk).same (arrayFree_of_lookup free hw)]
    | array items => exact absurd free (by simp [ArrayFree])
    | _ => simp [Value.properties?] at properties

theorem inherited_keeps : Inherited Keeps where
  refl := Keeps.refl
  trans := Keeps.trans
  array length items := ⟨.array length fun i v w hv hw => (items i v w hv hw).refines,
    fun free => absurd free (by simp [ArrayFree])⟩
  record properties distinct kept := keeps_merge distinct kept properties

theorem keeps_of_validate {schema : Schema} (h : schema.validate c slot = .ok r) :
    Option.Rel Keeps r slot := inherited_keeps.of_validate h

theorem present_of_validate {schema : Schema} {v : Value}
    (h : schema.validate c (some v) = .ok r) : ∃ w, r = some w ∧ Keeps w v := by
  cases keeps_of_validate h with
  | some keeps => exact ⟨_, rfl, keeps⟩

section Results

variable {child : Context} {own : Entries Value} {declarations : List (String × Schema)}
  {results : List (String × Slot)}

theorem mem_names_of_result
    (run : validateFields (fun schema slot => schema.validate child slot) own
      (Entries.standing declarations) = .ok results) :
    ∀ e ∈ results, e.2 ≠ none → e.1 ∈ Entries.names own := by
  intro e he ne
  have kept := Inherited.of_fields (Entries.nodup_names_standing declarations)
    (fun _ _ _ h => keeps_of_validate h) run he
  cases ho : own.lookup e.1 with
  | some w => exact (Entries.mem_names_iff _ _).2 ⟨w, ho⟩
  | none =>
      rw [ho] at kept
      cases hs : e.2 with
      | none => exact absurd hs ne
      | some v => simp [hs] at kept

theorem lookup_merge_of_field {d : String × Schema} {s : Slot}
    (run : validateFields (fun schema slot => schema.validate child slot) own
      (Entries.standing declarations) = .ok results)
    (declared : d ∈ Entries.standing declarations) (h : d.2.validate child (own.lookup d.1) = .ok s) :
    (merge own results).lookup d.1 = s := by
  have distinct := Entries.nodup_names_standing declarations
  obtain ⟨s', hs', hl⟩ := lookup_results run (Entries.lookup_of_mem distinct declared)
  obtain rfl : s = s' := Except.ok.inj (h.symm.trans hs')
  rw [lookup_merge (names_results run ▸ distinct), hl]
  have kept := keeps_of_validate h
  cases s with
  | some w => rfl
  | none =>
      cases ho : own.lookup d.1 with
      | none => rfl
      | some w => simp [ho] at kept

end Results

theorem present_of_validateValue {schema : Schema} {v w : Value}
    (h : schema.validateValue v = .ok w) : schema.validate {} (some v) = .ok (some w) := by
  obtain ⟨s, hs, hw⟩ := (Outcome.map_eq_ok_iff _ _ _).1 h
  obtain ⟨u, rfl, -⟩ := present_of_validate hs
  rw [hs, ← hw]
  rfl

theorem present_of_items {item : Schema} {items : List Value} (nonempty : items ≠ [])
    (h : (array item).validate c (some (.array items)) = .ok r) :
    ∃ child new, c.descend = .ok child ∧ r = some (.array new) ∧ new.length = items.length ∧
      ∀ (i : Nat) v, items[i]? = some v →
        ∃ w, item.validate child (some v) = .ok (some w) ∧ new[i]? = some w := by
  obtain ⟨l, new, hl, hr, ⟨rfl, -⟩ | ⟨child, -, hc, hn⟩⟩ := validate_array_eq_ok_iff.1 h
  · exact absurd (by simpa using hl) nonempty
  · have hil : items = l := by simpa using hl
    obtain ⟨length, parts⟩ := validateItems_eq_ok_iff.1 hn
    refine ⟨child, new, hc, hr, hil ▸ length, fun i v hv => ?_⟩
    obtain ⟨s, hs, hi⟩ := parts i v (hil ▸ hv)
    obtain ⟨w, rfl, -⟩ := present_of_validate hs
    exact ⟨w, hs, hi⟩

/-- Validation invents nothing and loses nothing: an absent slot has an absent result and a present value
a present one, which refines it and is the same value where that holds no array. So reading an absent
result as null, for a whole value or for an item, never happens. -/
theorem validate_preserves (schema : Schema) (c : Context) :
    (∀ r, schema.validate c none = .ok r → r = none) ∧
      (∀ v r, schema.validate c (some v) = .ok r →
        ∃ w, r = some w ∧ Refines w v ∧ (ArrayFree v → w = v)) ∧
      (∀ v w, schema.validateValue v = .ok w → schema.validate {} (some v) = .ok (some w)) ∧
      ∀ items r, items ≠ [] → (array schema).validate c (some (.array items)) = .ok r →
        ∃ child new, c.descend = .ok child ∧ r = some (.array new) ∧ new.length = items.length ∧
          ∀ (i : Nat) v, items[i]? = some v →
            ∃ w, schema.validate child (some v) = .ok (some w) ∧ new[i]? = some w := by
  refine ⟨fun r h => ?_, fun v r h => ?_, fun v w => present_of_validateValue,
    fun items r => present_of_items⟩
  · cases keeps_of_validate h with
    | none => rfl
  · obtain ⟨w, hr, keeps⟩ := present_of_validate h
    exact ⟨w, hr, keeps.refines, keeps.same⟩

theorem validate_preserves_reread :
    (and (record [("1", keyOf ["b"])]) (record [("0", any)])).validate {}
        (some (.array [.string "a", .string "b"])) =
      .ok (some (.object [("0", .string "a"), ("1", .string "b")])) ∧
    Refines (.object [("0", .string "a"), ("1", .string "b")])
      (.array [.string "a", .string "b"]) := by
  have run : (and (record [("1", keyOf ["b"])]) (record [("0", any)])).validate {}
      (some (.array [.string "a", .string "b"])) =
        .ok (some (.object [("0", .string "a"), ("1", .string "b")])) := by
    rfl
  obtain ⟨w, hw, refines, -⟩ := (validate_preserves _ {}).2.1 _ _ run
  cases hw
  exact ⟨run, refines⟩

end JsonShape.Schema
