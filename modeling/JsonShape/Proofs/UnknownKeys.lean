import JsonShape.Proofs.Preservation
import JsonShape.Proofs.Resolution
import JsonShape.Proofs.SideBySide
import JsonShape.Proofs.Value.Disregard
import JsonShape.Proofs.Views

/-!
Properties that no schema names. Where a name is neither that of a declared field nor a discriminant, and no
literal holds an object, the properties of that name decide nothing: values that differ only in them fail
alike or have outputs that differ only in them.
-/

namespace JsonShape

open List (Forall₂)
open Outcome (Alike alike_mapM)

/-- Failures of one code at one place, which say the same unless they show the value. -/
structure Failure.Similar (f g : Failure) : Prop where
  code : f.code = g.code
  path : f.path = g.path
  message : f.code ≠ .invalidValue → f.message = g.message

namespace Failure

theorem similar_refl (f : Failure) : f.Similar f := ⟨rfl, rfl, fun _ => rfl⟩

theorem Similar.within {f g : Failure} (h : f.Similar g) (s : Segment) : (f.within s).Similar (g.within s) :=
  ⟨h.code, congrArg (·.within s) h.path, h.message⟩

theorem similar_invalidValue (cause cause' : Cause) :
    (atRoot .invalidValue cause).Similar (atRoot .invalidValue cause') :=
  ⟨rfl, rfl, fun h => absurd rfl h⟩

end Failure

theorem Value.withoutItems_eq_iff {key : String} {items items' : List Value} :
    withoutItems key items = withoutItems key items' ↔
      Forall₂ (fun v v' => v.without key = v'.without key) items items' := by
  rw [withoutItems_eq_map, withoutItems_eq_map, ← List.forall₂_eq_eq_eq, List.forall₂_map_left_iff,
    List.forall₂_map_right_iff]

namespace Slot

variable {key : String} {slot slot' : Slot}

theorem AgreeBut.symm (h : slot.AgreeBut key slot') : slot'.AgreeBut key slot := Eq.symm h

theorem AgreeBut.rel (h : slot.AgreeBut key slot') :
    Option.Rel (fun v v' => v.without key = v'.without key) slot slot' := by
  cases slot with
  | none =>
      cases slot' with
      | none => exact .none
      | some v' => cases h
  | some v =>
      cases slot' with
      | none => cases h
      | some v' => exact .some (Option.some.inj h)

theorem AgreeBut.eq_of_blind {α : Type} (h : slot.AgreeBut key slot') {check : Slot → α}
    (blind : ∀ v : Value, check (some (v.without key)) = check (some v)) : check slot = check slot' := by
  cases h.rel with
  | none => rfl
  | some same => rw [← blind, same, blind]

theorem AgreeBut.kind (h : slot.AgreeBut key slot') : Kind.ofSlot slot = Kind.ofSlot slot' :=
  h.eq_of_blind Value.kind_without

theorem AgreeBut.eq_null_iff (h : slot.AgreeBut key slot') : slot = some .null ↔ slot' = some .null := by
  have null : ∀ s : Slot, s = some .null ↔ Kind.ofSlot s = .null := by
    intro s
    cases s with
    | none => simp [Kind.ofSlot]
    | some v => cases v <;> simp [Kind.ofSlot, Kind.ofValue]
  rw [null, null, h.kind]

theorem AgreeBut.getD_null (h : slot.AgreeBut key slot') :
    (slot.getD .null).without key = (slot'.getD .null).without key := by
  cases h.rel with
  | none => rfl
  | some same => exact same

theorem AgreeBut.string {tag : String} (h : AgreeBut key (some (.string tag)) slot') :
    slot' = some (.string tag) := by
  cases h.rel with
  | @some _ v' same => cases v' <;> simp_all [Value.without]

theorem AgreeBut.array {items : List Value} (h : AgreeBut key (some (.array items)) slot') :
    ∃ items', slot' = some (.array items') ∧
      Value.withoutItems key items = Value.withoutItems key items' := by
  cases h.rel with
  | @some _ v' same => cases v' <;> simp_all [Value.without]

theorem AgreeBut.object {members : Entries Value} (h : AgreeBut key (some (.object members)) slot') :
    ∃ members', slot' = some (.object members') ∧
      Value.withoutMembers key members = Value.withoutMembers key members' := by
  cases h.rel with
  | @some _ v' same => cases v' <;> simp_all [Value.without]

end Slot

open Slot (AgreeBut)

namespace Checks

variable {key : String} {slot slot' : Slot}

theorem string_eq (h : slot.AgreeBut key slot') : string slot = string slot' :=
  h.eq_of_blind fun v => by cases v <;> rfl

theorem number_eq (h : slot.AgreeBut key slot') : number slot = number slot' :=
  h.eq_of_blind fun v => by cases v <;> rfl

theorem boolean_eq (h : slot.AgreeBut key slot') : boolean slot = boolean slot' :=
  h.eq_of_blind fun v => by cases v <;> rfl

theorem key_eq (keys : List String) (h : slot.AgreeBut key slot') :
    Checks.key keys slot = Checks.key keys slot' := by
  rw [Checks.key, Checks.key, string_eq h]

theorem wrongKind_eq (expected : String) (h : slot.AgreeBut key slot') :
    Failure.wrongKind expected slot = Failure.wrongKind expected slot' := by
  rw [Failure.wrongKind, Failure.wrongKind, h.kind]

theorem alike_test {v v' : Value} {passes passes' : Bool} (same : passes = passes')
    (hv : v.without key = v'.without key) (cause cause' : Cause) :
    Alike Failure.Similar (fun v v' => v.without key = v'.without key)
      (if passes then .ok v else .error (.atRoot .invalidValue cause))
      (if passes' then .ok v' else .error (.atRoot .invalidValue cause')) := by
  subst same
  split
  · exact .ok hv
  · exact .error (Failure.similar_invalidValue cause cause')

theorem alike_exactly {expected : Value} (free : expected.ObjectFree) (h : slot.AgreeBut key slot') :
    Alike Failure.Similar (fun v v' => v.without key = v'.without key)
      (exactly expected slot) (exactly expected slot') := by
  cases h.rel with
  | none => exact .error (Failure.similar_refl _)
  | @some v v' hv =>
      refine alike_test ?_ hv _ _
      rw [← Value.same_without v expected free, hv, Value.same_without v' expected free]

theorem alike_among {allowed : List Value} (free : ∀ v ∈ allowed, v.ObjectFree)
    (h : slot.AgreeBut key slot') :
    Alike Failure.Similar (fun v v' => v.without key = v'.without key)
      (among allowed slot) (among allowed slot') := by
  cases h.rel with
  | none => exact .error (Failure.similar_refl _)
  | @some v v' hv =>
      refine alike_test ?_ hv _ _
      rw [Bool.eq_iff_iff, List.any_eq_true, List.any_eq_true]
      refine exists_congr fun e => and_congr_right fun he => ?_
      rw [← Value.same_without v e (free e he), hv, Value.same_without v' e (free e he)]

theorem alike_items (h : slot.AgreeBut key slot') :
    Alike Failure.Similar (fun l l' => Value.withoutItems key l = Value.withoutItems key l')
      (items slot) (items slot') := by
  cases hi : items slot with
  | ok l =>
      obtain rfl := (items_eq_ok_iff slot l).1 hi
      obtain ⟨l', rfl, same⟩ := h.array
      exact .ok same
  | error f =>
      cases hi' : items slot' with
      | ok l' =>
          obtain rfl := (items_eq_ok_iff slot' l').1 hi'
          obtain ⟨l, rfl, -⟩ := h.symm.array
          cases hi
      | error f' =>
          rw [error_of_items hi, error_of_items hi', wrongKind_eq "array" h]
          exact .error (Failure.similar_refl _)

theorem alike_properties (h : slot.AgreeBut key slot') :
    Alike Failure.Similar (fun own own' => Value.withoutMembers key own = Value.withoutMembers key own')
      (properties slot) (properties slot') := by
  have wrong := wrongKind_eq "object" h
  have own : Option.Rel (fun own own' => Value.withoutMembers key own = Value.withoutMembers key own')
      (slot.bind Value.properties?) (slot'.bind Value.properties?) := by
    cases h.rel with
    | none => exact .none
    | some same => exact Value.properties?_without same
  unfold properties
  generalize slot.bind Value.properties? = found at own
  generalize slot'.bind Value.properties? = found' at own
  cases own with
  | none =>
      rw [wrong]
      exact .error (Failure.similar_refl _)
  | some same => exact .ok same

theorem alike_tag {discriminant : String} (ne : discriminant ≠ key) (h : slot.AgreeBut key slot') :
    Alike Failure.Similar (AgreeBut key) (tag discriminant slot) (tag discriminant slot') := by
  have wrong := wrongKind_eq "object" h
  cases h.rel with
  | none => exact .error (Failure.similar_refl _)
  | @some v v' same =>
      cases v with
      | object members =>
          obtain ⟨members', he, hm⟩ := h.object
          cases he
          refine .ok ?_
          unfold Slot.AgreeBut Slot.without
          rw [← Value.lookup_withoutMembers ne, hm, Value.lookup_withoutMembers ne]
      | array items =>
          obtain ⟨items', he, -⟩ := h.array
          cases he
          exact .ok rfl
      | _ =>
          cases v' with
          | object members' => simp [Value.without] at same
          | array items' => simp [Value.without] at same
          | _ =>
              unfold tag
              dsimp only
              rw [wrong]
              exact .error (Failure.similar_refl _)

end Checks

namespace Schema

variable {key : String} {c : Context} {slot slot' : Slot}

/-- The schema itself, its parts aside, does not look at properties called `key`. -/
def IsBlindTo (key : String) : Schema → Prop
  | exact expected => expected.ObjectFree
  | oneOf allowed => ∀ v ∈ allowed, v.ObjectFree
  | record declarations => key ∉ declaredNames declarations
  | union discriminant _ => discriminant ≠ key
  | _ => True

/-- Nothing that stands in the schema looks at properties called `key`. -/
def Disregards (schema : Schema) (key : String) : Prop :=
  ∀ part, schema.Contains part → part.IsBlindTo key

theorem Disregards.outer {whole part : Schema} (h : whole.Disregards key)
    (isPart : part ∈ whole.outerParts) : part.Disregards key :=
  fun _ inside => h _ (.outer isPart inside)

theorem Disregards.inner {whole part : Schema} (h : whole.Disregards key)
    (isPart : part ∈ whole.innerParts) : part.Disregards key :=
  fun _ inside => h _ (.inner isPart inside)

theorem alike_items {child : Run} {item : Schema} {items items' : List Value}
    (same : Value.withoutItems key items = Value.withoutItems key items')
    (each : ∀ slot slot', AgreeBut key slot slot' →
      Alike Failure.Similar (AgreeBut key) (child item slot) (child item slot')) :
    Alike Failure.Similar (fun l l' => Value.withoutItems key l = Value.withoutItems key l')
      (validateItems child item items) (validateItems child item items') := by
  have parts : Alike Failure.Similar (Forall₂ fun w w' => w.without key = w'.without key)
      (validateItems child item items) (validateItems child item items') := by
    refine alike_mapM ((forall₂_zipIdx (Value.withoutItems_eq_iff.1 same) 0).imp ?_)
    rintro ⟨v, i⟩ ⟨v', j⟩ ⟨hv, rfl⟩
    have part := each (some v) (some v') (congrArg some hv)
    refine (part.map _ _ fun r r' _ _ h => ?_).under _ fun _ _ h => h.within _
    exact h.getD_null
  exact parts.imp fun _ _ => Value.withoutItems_eq_iff.2

theorem alike_fields {child : Run} {own own' : Entries Value} {fields : Entries Schema}
    (unnamed : key ∉ Entries.names fields)
    (same : Value.withoutMembers key own = Value.withoutMembers key own')
    (each : ∀ d ∈ fields, ∀ slot slot', AgreeBut key slot slot' →
      Alike Failure.Similar (AgreeBut key) (child d.2 slot) (child d.2 slot')) :
    Alike Failure.Similar (Forall₂ fun e e' => e.1 = e'.1 ∧ AgreeBut key e.2 e'.2)
      (validateFields child own fields) (validateFields child own' fields) := by
  refine alike_mapM (List.forall₂_same.2 fun d hd => ?_)
  have ne : d.1 ≠ key := fun he => unnamed (he ▸ List.mem_map_of_mem hd)
  have property : AgreeBut key (own.lookup d.1) (own'.lookup d.1) := by
    unfold Slot.AgreeBut Slot.without
    rw [← Value.lookup_withoutMembers ne, same, Value.lookup_withoutMembers ne]
  exact ((each d hd _ _ property).map _ _ fun _ _ _ _ h => ⟨rfl, h⟩).under _ fun _ _ h => h.within _

theorem withoutMembers_merge {own own' : Entries Value} {results results' : List (String × Slot)}
    (same : Value.withoutMembers key own = Value.withoutMembers key own')
    (agree : Forall₂ (fun e e' => e.1 = e'.1 ∧ AgreeBut key e.2 e'.2) results results')
    (unnamed : key ∉ Entries.names results)
    (present : ∀ e ∈ results, e.2 ≠ none → e.1 ∈ Entries.names own)
    (present' : ∀ e ∈ results', e.2 ≠ none → e.1 ∈ Entries.names own') :
    Value.withoutMembers key (merge own results) = Value.withoutMembers key (merge own' results') := by
  induction agree generalizing own own' with
  | nil => exact same
  | @cons e e' results results' head _ ih =>
      obtain ⟨name, s⟩ := e
      obtain ⟨name', s'⟩ := e'
      obtain ⟨rfl, agree⟩ : name = name' ∧ AgreeBut key s s' := head
      obtain ⟨hne, rest⟩ := List.ne_and_not_mem_of_not_mem_cons unnamed
      have tail := fun e he => present e (List.mem_cons_of_mem _ he)
      have tail' := fun e he => present' e (List.mem_cons_of_mem _ he)
      cases agree.rel with
      | none => exact ih same rest tail tail'
      | @some v v' hv =>
          have mem := present _ (List.mem_cons_self ..) (by simp)
          have mem' := present' _ (List.mem_cons_self ..) (by simp)
          refine @ih (Entries.insert own name v) (Entries.insert own' name v') ?_ rest ?_ ?_
          · rw [Entries.insert, Entries.insert, if_pos mem, if_pos mem',
              Value.withoutMembers_replace hne.symm, Value.withoutMembers_replace hne.symm, same, hv]
          · exact fun e he hs => (Entries.mem_names_insert ..).2 (.inr (tail e he hs))
          · exact fun e he hs => (Entries.mem_names_insert ..).2 (.inr (tail' e he hs))

theorem similar_rfl (r : Outcome Slot) : Alike Failure.Similar (AgreeBut key) r r :=
  Outcome.alike_of_eq Failure.similar_refl (fun s => Eq.refl (s.without key)) rfl

theorem alike_union {discriminant : String} {declarations : List (String × Schema)}
    (ne : discriminant ≠ key) (agree : AgreeBut key slot slot')
    (each : ∀ tag variant, (Entries.standing declarations).lookup tag = some variant →
      Alike Failure.Similar (AgreeBut key) (variant.validate c slot) (variant.validate c slot')) :
    Alike Failure.Similar (AgreeBut key) ((union discriminant declarations).validate c slot)
      ((union discriminant declarations).validate c slot') := by
  have found := Checks.alike_tag ne agree
  generalize ht : Checks.tag discriminant slot = t at found
  generalize ht' : Checks.tag discriminant slot' = t' at found
  cases found with
  | error failed =>
      rw [validate_union, validate_union, ht, ht']
      exact .error failed
  | @ok t t' tags =>
      by_cases tagged : ∃ tag, t = some (.string tag)
      · obtain ⟨tag, rfl⟩ := tagged
        obtain rfl := tags.string
        rw [validate_union_of_tag ht, validate_union_of_tag ht']
        cases hv : (Entries.standing declarations).lookup tag with
        | none => exact similar_rfl _
        | some variant => exact each tag variant hv
      · have noTag : ∀ tag, t ≠ some (.string tag) := fun tag he => tagged ⟨tag, he⟩
        have noTag' : ∀ tag, t' ≠ some (.string tag) := by
          rintro tag rfl
          exact noTag tag tags.symm.string
        rw [validate_union_of_other ht noTag, validate_union_of_other ht' noTag', tags.kind]
        exact similar_rfl _

theorem alike_of_below
    (below : ∀ child, c.descend = .ok child → ∀ (schema : Schema) slot slot', schema.Disregards key →
      AgreeBut key slot slot' →
        Alike Failure.Similar (AgreeBut key) (schema.validate child slot) (schema.validate child slot'))
    (bound : ∀ name target, c.bound? name = some target → target.Disregards key) (schema : Schema)
    (blind : schema.Disregards key) (agree : AgreeBut key slot slot') :
    Alike Failure.Similar (AgreeBut key) (schema.validate c slot) (schema.validate c slot') := by
  induction schema generalizing slot slot' with
  | string =>
      rw [validate_string, validate_string, Checks.string_eq agree]
      exact similar_rfl _
  | number =>
      rw [validate_number, validate_number, Checks.number_eq agree]
      exact similar_rfl _
  | boolean =>
      rw [validate_boolean, validate_boolean, Checks.boolean_eq agree]
      exact similar_rfl _
  | any =>
      rw [validate_any, validate_any]
      exact .ok agree
  | exact expected =>
      rw [validate_exact, validate_exact]
      exact (Checks.alike_exactly (blind _ (.self _)) agree).map _ _ fun _ _ _ _ h => congrArg some h
  | oneOf allowed =>
      rw [validate_oneOf, validate_oneOf]
      exact (Checks.alike_among (blind _ (.self _)) agree).map _ _ fun _ _ _ _ h => congrArg some h
  | keyOf keys =>
      rw [validate_keyOf, validate_keyOf, Checks.key_eq keys agree]
      exact similar_rfl _
  | array item =>
      rw [validate_array, validate_array]
      have found := Checks.alike_items agree
      generalize Checks.items slot = l at found
      generalize Checks.items slot' = l' at found
      cases found with
      | error failed => exact .error failed
      | @ok items items' h =>
          cases items with
          | nil =>
              cases items' with
              | nil => exact similar_rfl _
              | cons v' items' => cases h
          | cons v items =>
              cases items' with
              | nil => cases h
              | cons v' items' =>
                  cases hc : c.descend with
                  | error f => exact similar_rfl _
                  | ok child =>
                      have item := blind.inner (List.mem_singleton_self item)
                      refine (alike_items h fun slot slot' => below child hc _ slot slot' item).map _ _ ?_
                      exact fun _ _ _ _ h => congrArg (fun l => some (Value.array l)) h
  | record declarations =>
      rw [validate_record, validate_record]
      have found := Checks.alike_properties agree
      generalize Checks.properties slot = own at found
      generalize Checks.properties slot' = own' at found
      cases found with
      | error failed => exact .error failed
      | @ok own own' h =>
          dsimp only
          split
          · exact .ok agree
          · cases hc : c.descend with
            | error f => exact similar_rfl _
            | ok child =>
                have unnamed : key ∉ declaredNames declarations := blind _ (.self _)
                refine (alike_fields unnamed h fun d hd slot slot' => below child hc d.2 slot slot'
                  (blind.inner (innerPart_of_field hd))).map _ _ fun results results' run run' hr => ?_
                have merged := withoutMembers_merge h hr (names_results run ▸ unnamed)
                  (mem_names_of_result run) (mem_names_of_result run')
                exact congrArg (fun members => some (Value.object members)) merged
  | and first second ihFirst ihSecond =>
      rw [validate_and, validate_and]
      have one := ihFirst (blind.outer (by simp [outerParts])) agree
      generalize first.validate c slot = r at one
      generalize first.validate c slot' = r' at one
      cases one with
      | error failed => exact .error failed
      | ok h => exact ihSecond (blind.outer (by simp [outerParts])) h
  | or first second ihFirst ihSecond =>
      rw [validate_or, validate_or]
      have one := ihFirst (blind.outer (by simp [outerParts])) agree
      generalize first.validate c slot = r at one
      generalize first.validate c slot' = r' at one
      cases one with
      | error => exact ihSecond (blind.outer (by simp [outerParts])) agree
      | ok h => exact .ok h
  | optional inner ih =>
      rw [validate_optional, validate_optional]
      cases agree.rel with
      | none => exact similar_rfl _
      | some h => exact ih (blind.outer (List.mem_singleton_self inner)) agree
  | nullable inner ih =>
      by_cases hn : slot = some .null
      · rw [hn, agree.eq_null_iff.1 hn]
        exact similar_rfl _
      · rw [validate_nullable c inner hn, validate_nullable c inner (mt agree.eq_null_iff.2 hn)]
        exact ih (blind.outer (List.mem_singleton_self inner)) agree
  | union discriminant declarations ih =>
      refine alike_union (blind _ (.self _)) agree fun tag variant hv => ?_
      exact ih _ (Entries.mem_of_lookup_standing hv) (blind.outer (outerPart_of_variant hv)) agree
  | ref name =>
      rw [validate_ref_eq, validate_ref_eq]
      cases hr : c.resolve name with
      | error f => exact similar_rfl _
      | ok resolved =>
          obtain ⟨target, child⟩ := resolved
          obtain ⟨isBound, hc⟩ := Context.resolve_eq_ok_iff.1 hr
          exact below child hc target slot slot' (bound name target isBound) agree
  | stored schema ih =>
      rw [validate_stored, validate_stored]
      exact ih (blind.outer (List.mem_singleton_self schema)) agree

theorem alike_of_agree {schema : Schema}
    (bound : ∀ name target, c.bound? name = some target → target.Disregards key)
    (blind : schema.Disregards key) (agree : AgreeBut key slot slot') :
    Alike Failure.Similar (AgreeBut key) (schema.validate c slot) (schema.validate c slot') := by
  induction c using Context.induction generalizing schema slot slot' with
  | step c below =>
      refine alike_of_below (fun child hc schema slot slot' blind agree => ?_) bound schema blind agree
      refine below child hc ?_ blind agree
      rwa [Context.bound?_of_descend hc]

/-- Where neither the schema nor what any name is bound to looks at properties called `key`, slots that
agree but for them have like outcomes in both views: failures of one code at one place, which say the same
unless they show the value, or results that agree but for them. -/
theorem unknown_key_decides_nothing {schema : Schema} {c : Context} {key : String} {slot slot' : Slot}
    (blind : schema.Disregards key)
    (bound : ∀ name target, c.bound? name = some target → target.Disregards key)
    (agree : slot.AgreeBut key slot') :
    Alike Failure.Similar (AgreeBut key) (schema.validate c slot) (schema.validate c slot') ∧
      Alike Failure.Similar (fun t t' => t.erase.without key = t'.erase.without key)
        (schema.interpret c slot) (schema.interpret c slot') := by
  have value := alike_of_agree bound blind agree
  have json : Alike Failure.Similar (fun v v' => v.without key = v'.without key)
      ((schema.validate c slot).map fun r => r.getD .null)
      ((schema.validate c slot').map fun r => r.getD .null) :=
    value.map _ _ fun _ _ _ _ h => h.getD_null
  rw [← Schema.agree schema c slot, ← Schema.agree schema c slot'] at json
  exact ⟨value, json.of_map⟩

theorem unknown_key_decides_nothing_cells :
    let cell := or (exact (.array [.null])) string
    let c : Context := { registry := some (Registry.empty.registerAll [("Cell", cell)]), maxDepth := 3 }
    let schema := array (record [("0", ref "Cell")])
    let slot : Slot := some (.array
      [.array [.string "a", .object []], .object [("0", .array [.null]), ("1", .bool true)]])
    let slot' : Slot := some (.array
      [.array [.string "a", .object [("1", .null)]], .object [("0", .array [.null])]])
    let r : Slot := some (.array
      [.object [("0", .string "a"), ("1", .object [])], .object [("0", .array [.null]), ("1", .bool true)]])
    schema.Disregards "1" ∧ (∀ name target, c.bound? name = some target → target.Disregards "1") ∧
      slot.AgreeBut "1" slot' ∧ schema.validate c slot = .ok r ∧
      ∃ r', schema.validate c slot' = .ok r' ∧ r.AgreeBut "1" r' := by
  intro cell c schema slot slot' r
  have blind : schema.Disregards "1" := by
    refine forall_contains trivial (by simp [schema, outerParts]) fun part isPart => ?_
    obtain rfl := List.mem_singleton.1 isPart
    have unnamed : "1" ∉ declaredNames [("0", ref "Cell")] := by decide
    refine forall_contains unnamed (by simp [outerParts]) fun part isPart => ?_
    obtain rfl := List.mem_singleton.1 isPart
    exact forall_contains_leaf trivial rfl rfl
  have bound : ∀ name target, c.bound? name = some target → target.Disregards "1" := by
    intro name target h
    have hl : ([("Cell", cell)] : Entries Schema).lookup name = some target := h
    obtain ⟨-, rfl⟩ : name = "Cell" ∧ target = cell := by simpa using Entries.mem_of_lookup hl
    refine forall_contains trivial (fun part isPart => ?_) (by simp [cell, innerParts])
    obtain rfl | rfl : part = exact (.array [.null]) ∨ part = string := by
      simpa [cell, outerParts] using isPart
    · exact forall_contains_leaf ⟨trivial, trivial⟩ rfl rfl
    · exact forall_contains_leaf trivial rfl rfl
  have agree : slot.AgreeBut "1" slot' := rfl
  have run : schema.validate c slot = .ok r := rfl
  have alike := (unknown_key_decides_nothing blind bound agree).1
  rw [run] at alike
  generalize schema.validate c slot' = o at alike
  cases alike with
  | ok h => exact ⟨blind, bound, agree, run, _, rfl, h⟩

end Schema

end JsonShape
