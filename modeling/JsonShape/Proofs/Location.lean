import JsonShape.Proofs.Preservation
import JsonShape.Proofs.Views
import JsonShape.Proofs.Value.Navigation

/-!
Where a failure points. The path of a failure leads to a place of the value that was validated, though the
second schema of an `and` reports places of what the first returned; and a failure for the kind of a value
names the kind that stands there, unless the first schema of an `and` has read an array there as an object.
-/

namespace JsonShape.Schema

open Slot
open Value (Refines child?_field)

/-- In a failing run, the first schema of an `and` reads the array at a place as an object. -/
inductive Rereads : Context → Schema → Slot → List Segment → Prop where
  | here {c : Context} {first second : Schema} {slot narrowed : Slot} {place : List Segment}
      (run : first.validate c slot = .ok narrowed)
      (before : Kind.ofSlot (follow slot place) = .array)
      (after : Kind.ofSlot (follow narrowed place) = .object) :
      Rereads c (and first second) slot place
  | first {c : Context} {first second : Schema} {slot : Slot} {place : List Segment}
      (inFirst : Rereads c first slot place) : Rereads c (and first second) slot place
  | second {c : Context} {first second : Schema} {slot narrowed : Slot} {place : List Segment}
      (run : first.validate c slot = .ok narrowed) (inSecond : Rereads c second narrowed place) :
      Rereads c (and first second) slot place
  | fallback {c : Context} {first second : Schema} {slot : Slot} {place : List Segment} {f : Failure}
      (run : first.validate c slot = .error f) (inSecond : Rereads c second slot place) :
      Rereads c (or first second) slot place
  | item {c child : Context} {item : Schema} {items : List Value} {i : Nat} {v : Value}
      {place : List Segment} (descend : c.descend = .ok child) (present : items[i]? = some v)
      (inItem : Rereads child item (some v) place) :
      Rereads c (array item) (some (.array items)) (.index i :: place)
  | field {c child : Context} {declarations : List (String × Schema)} {name : String}
      {schema : Schema} {v : Value} {place : List Segment} (descend : c.descend = .ok child)
      (declared : (name, schema) ∈ Entries.standing declarations)
      (inField : Rereads child schema (v.child? (.field name)) place) :
      Rereads c (record declarations) (some v) (.field name :: place)
  | optional {c : Context} {inner : Schema} {v : Value} {place : List Segment}
      (inInner : Rereads c inner (some v) place) : Rereads c (optional inner) (some v) place
  | nullable {c : Context} {inner : Schema} {slot : Slot} {place : List Segment}
      (inInner : Rereads c inner slot place) : Rereads c (nullable inner) slot place
  | variant {c : Context} {discriminant tag : String} {declarations : List (String × Schema)}
      {schema : Schema} {slot : Slot} {place : List Segment}
      (found : Checks.tag discriminant slot = .ok (some (.string tag)))
      (declared : (Entries.standing declarations).lookup tag = some schema)
      (inVariant : Rereads c schema slot place) :
      Rereads c (union discriminant declarations) slot place
  | target {c child : Context} {registry : Registry} {name : String} {target : Schema} {slot : Slot}
      {place : List Segment} (attached : c.registry = some registry)
      (bound : registry.get? name = some target) (descend : c.descend = .ok child)
      (inTarget : Rereads child target slot place) : Rereads c (ref name) slot place
  | stored {c : Context} {schema : Schema} {slot : Slot} {place : List Segment}
      (inStored : Rereads c schema slot place) : Rereads c (stored schema) slot place

def expectations : List String := ["string", "number", "boolean", "array", "object"]

/-- A failure for the kind of a value names the kind at its place, or an object where an array was read
as one. -/
def NamesKind (c : Context) (schema : Schema) (slot : Slot) (f : Failure) : Prop :=
  f.code = .invalidType → ∃ expected ∈ expectations, ∃ got, f.cause = .wrongKind expected got ∧
    (got = .ofSlot (follow slot f.path.segments) ∨
      got = .object ∧ Kind.ofSlot (follow slot f.path.segments) = .array ∧
        Rereads c schema slot f.path.segments)

structure Located (c : Context) (schema : Schema) (slot : Slot) (f : Failure) : Prop where
  leads : Leads slot f.path.segments
  kind : NamesKind c schema slot f

variable {c : Context} {slot : Slot} {f : Failure}

theorem located_wrongKind {schema : Schema} {expected : String} (he : expected ∈ expectations) :
    Located c schema slot (.wrongKind expected slot) :=
  ⟨.here slot, fun _ => ⟨expected, he, .ofSlot slot, rfl, .inl rfl⟩⟩

theorem located_atRoot {schema : Schema} {code : Code} {cause : Cause} (h : code ≠ .invalidType) :
    Located c schema slot (.atRoot code cause) :=
  ⟨.here slot, fun hc => absurd hc h⟩

theorem located_descend {schema : Schema} (h : c.descend = .error f) : Located c schema slot f := by
  obtain ⟨-, rfl⟩ := (Context.descend_eq_error_iff c f).1 h
  exact located_atRoot (by decide)

theorem located_badTag {schema : Schema} {v : Value} {discriminant : String} {cause : Cause} :
    Located c schema (some v) (Checks.badTag discriminant cause) :=
  ⟨leads_field (.here _), fun hc => by simp [Checks.badTag] at hc⟩

theorem located_of_part {child : Context} {part schema : Schema} (h : Located child part slot f)
    (rereads : ∀ place, Rereads child part slot place → Rereads c schema slot place) :
    Located c schema slot f := by
  refine ⟨h.leads, fun hc => ?_⟩
  obtain ⟨expected, he, got, cause, hg | ⟨hg, hk, hr⟩⟩ := h.kind hc
  · exact ⟨expected, he, got, cause, .inl hg⟩
  · exact ⟨expected, he, got, cause, .inr ⟨hg, hk, rereads _ hr⟩⟩

theorem located_within {child : Context} {part schema : Schema} {v : Value} {s : Segment}
    (leads : Leads (some v) (s :: f.path.segments))
    (h : Located child part (v.child? s) f)
    (rereads : ∀ place, Rereads child part (v.child? s) place →
      Rereads c schema (some v) (s :: place)) :
    Located c schema (some v) (f.within s) := by
  refine ⟨leads, fun hc => ?_⟩
  obtain ⟨expected, he, got, cause, hg | ⟨hg, hk, hr⟩⟩ := h.kind hc
  · exact ⟨expected, he, got, cause, .inl hg⟩
  · exact ⟨expected, he, got, cause, .inr ⟨hg, hk, rereads _ hr⟩⟩

theorem located_second {first second : Schema} {narrowed : Slot}
    (run : first.validate c slot = .ok narrowed) (h : Located c second narrowed f) :
    Located c (and first second) slot f := by
  have refines : Option.Rel Refines narrowed slot := by
    cases keeps_of_validate run with
    | none => exact .none
    | some keeps => exact .some keeps.refines
  refine ⟨leads_of_refines refines h.leads, fun hc => ?_⟩
  obtain ⟨expected, he, got, cause, hg⟩ := h.kind hc
  refine ⟨expected, he, got, cause, ?_⟩
  have kinds := kind_follow_of_refines refines h.leads
  obtain hg | ⟨hg, hk, hr⟩ := hg
  · obtain same | ⟨object, array⟩ := kinds
    · exact .inl (hg.trans same)
    · exact .inr ⟨hg.trans object, array, .here run array object⟩
  · obtain same | ⟨object, -⟩ := kinds
    · exact .inr ⟨hg, same ▸ hk, .second run hr⟩
    · rw [hk] at object
      cases object

theorem located_of_below
    (below : ∀ child, c.descend = .ok child →
      ∀ (schema : Schema) slot f, schema.validate child slot = .error f →
        Located child schema slot f)
    (schema : Schema) (h : schema.validate c slot = .error f) : Located c schema slot f := by
  induction schema generalizing slot f with
  | string =>
      rw [validate_string, Outcome.map_eq_error_iff] at h
      rw [Checks.error_of_string h]
      exact located_wrongKind (by decide)
  | number =>
      rw [validate_number, Outcome.map_eq_error_iff] at h
      rw [Checks.error_of_number h]
      exact located_wrongKind (by decide)
  | boolean =>
      rw [validate_boolean, Outcome.map_eq_error_iff] at h
      rw [Checks.error_of_boolean h]
      exact located_wrongKind (by decide)
  | any =>
      rw [validate_any] at h
      cases h
  | exact expected =>
      rw [validate_exact, Outcome.map_eq_error_iff] at h
      rw [Checks.error_of_exactly h]
      exact located_atRoot (by decide)
  | oneOf allowed =>
      rw [validate_oneOf, Outcome.map_eq_error_iff] at h
      rw [Checks.error_of_among h]
      exact located_atRoot (by decide)
  | keyOf keys =>
      rw [validate_keyOf, Outcome.map_eq_error_iff] at h
      obtain rfl | ⟨s, rfl⟩ := Checks.error_of_key h
      · exact located_wrongKind (by decide)
      · exact located_atRoot (by decide)
  | array item =>
      obtain hi | ⟨items, rfl, -, hc | ⟨child, hc, hn⟩⟩ := validate_array_eq_error_iff.1 h
      · rw [Checks.error_of_items hi]
        exact located_wrongKind (by decide)
      · exact located_descend hc
      · obtain ⟨i, v, g, hv, hg, rfl, -⟩ := validateItems_eq_error_iff.1 hn
        have hl := below child hc item (some v) g hg
        refine located_within (.step hv hl.leads) (hv.symm ▸ hl) fun place hr => ?_
        exact .item hc hv (hv ▸ hr)
  | record declarations =>
      obtain hp | ⟨v, own, rfl, properties, -, hc | ⟨child, hc, hn⟩⟩ :=
        validate_record_eq_error_iff.1 h
      · rw [Checks.error_of_properties hp]
        exact located_wrongKind (by decide)
      · exact located_descend hc
      · obtain ⟨i, d, g, hi, hg, rfl, -⟩ := validateFields_eq_error_iff.1 hn
        rw [← child?_field properties d.1] at hg
        have hl := below child hc d.2 _ g hg
        refine located_within (leads_field hl.leads) hl fun place hr => ?_
        exact .field hc (List.mem_of_getElem? hi) hr
  | and first second ihFirst ihSecond =>
      obtain hf | ⟨narrowed, hf, hs⟩ := validate_and_eq_error_iff.1 h
      · exact located_of_part (ihFirst hf) fun _ => .first
      · exact located_second hf (ihSecond hs)
  | or first second ihFirst ihSecond =>
      obtain ⟨g, hf, hs⟩ := validate_or_eq_error_iff.1 h
      exact located_of_part (ihSecond hs) fun _ => .fallback hf
  | optional inner ih =>
      rw [validate_optional] at h
      cases slot with
      | none => cases h
      | some v => exact located_of_part (ih h) fun _ => .optional
  | nullable inner ih =>
      by_cases hn : slot = some .null
      · rw [hn, validate_nullable_null] at h
        cases h
      · exact located_of_part (ih (validate_nullable c inner hn ▸ h)) fun _ => .nullable
  | union discriminant declarations ih =>
      obtain ht | ⟨v, rfl, ⟨-, rfl⟩ | ⟨-, rfl⟩⟩ | ⟨tag, variant, ht, hv, hf⟩ := error_of_union h
      · rw [Checks.error_of_tag ht]
        exact located_wrongKind (by decide)
      · exact located_badTag
      · exact located_badTag
      · have hl := ih _ (Entries.mem_of_lookup_standing hv) hf
        exact located_of_part hl fun _ => .variant ht hv
  | ref name =>
      obtain ⟨-, rfl⟩ | ⟨registry, hr, ⟨-, rfl⟩ | ⟨target, ht, hc | ⟨child, hc, hf⟩⟩⟩ :=
        validate_ref_eq_error_iff.1 h
      · exact located_atRoot (by decide)
      · exact located_atRoot (by decide)
      · exact located_descend hc
      · have hl := below child hc target slot f hf
        exact located_of_part hl fun _ => .target hr ht hc
  | stored schema ih =>
      exact located_of_part (ih (validate_stored c slot schema ▸ h)) fun _ => .stored

theorem located_of_validate {schema : Schema} (h : schema.validate c slot = .error f) :
    Located c schema slot f := by
  induction c using Context.induction generalizing schema slot f with
  | step c below => exact located_of_below (fun child hc _ _ _ h => below child hc h) schema h

/-- Where validation fails, in either view, the path of the failure leads to a place of the slot: it is the
root for an absent slot; all before its last segment stands in the value, and so does what the whole path
leads to, unless that is a property that the value lacks. A failure for the kind of a value tells the kind
that stands at this place, or an object where it holds an array that an `and` has read as one. -/
theorem failure_leads_into_slot (schema : Schema) (c : Context) (slot : Slot) (f : Failure)
    (h : schema.validate c slot = .error f ∨ schema.interpret c slot = .error f) :
    (slot = none → f.path = .root) ∧
      (∀ v, slot = some v →
        (∀ before s after, f.path.segments = before ++ s :: after →
          ∃ w, follow (some v) before = some w) ∧
        ((∃ w, follow (some v) f.path.segments = some w) ∨
          ∃ name, f.path.last? = some (.field name))) ∧
      (f.code = .invalidType → ∃ expected ∈ expectations, ∃ got,
        f.message = "expected " ++ expected ++ ", got " ++ Kind.name got ∧
          (got = .ofSlot (follow slot f.path.segments) ∨
            got = .object ∧ Kind.ofSlot (follow slot f.path.segments) = .array ∧
              Rereads c schema slot f.path.segments)) := by
  obtain ⟨leads, kind⟩ := located_of_validate (validate_of_view h)
  refine ⟨?_, ?_, ?_⟩
  · rintro rfl
    have root := eq_nil_of_leads_none leads
    exact congrArg Path.mk root
  · rintro v rfl
    refine ⟨fun before s after hp => ?_, present_or_field_of_leads leads⟩
    rw [hp] at leads
    exact present_of_leads leads
  · intro hc
    obtain ⟨expected, he, got, cause, hg⟩ := kind hc
    refine ⟨expected, he, got, ?_, hg⟩
    rw [Failure.message, cause]
    rfl

theorem failure_leads_into_slot_reread :
    (record [("list", and (record [("0", any)]) (array any))]).validate {}
        (some (.object [("list", .array [.null])])) =
      .error ⟨⟨[.field "list"]⟩, .invalidType, .wrongKind "array" .object⟩ ∧
    follow (some (.object [("list", .array [.null])])) [.field "list"] = some (.array [.null]) ∧
    Rereads {} (record [("list", and (record [("0", any)]) (array any))])
      (some (.object [("list", .array [.null])])) [.field "list"] := by
  have run : (record [("list", and (record [("0", any)]) (array any))]).validate {}
      (some (.object [("list", .array [.null])])) =
        .error ⟨⟨[.field "list"]⟩, .invalidType, .wrongKind "array" .object⟩ := by rfl
  refine ⟨run, rfl, ?_⟩
  obtain ⟨expected, he, got, message, same | ⟨-, -, rereads⟩⟩ :=
    (failure_leads_into_slot _ _ _ _ (.inl run)).2.2 rfl
  · have other : ∀ e ∈ expectations, Cause.message (.wrongKind "array" .object) ≠
        "expected " ++ e ++ ", got " ++ Kind.name .array := by decide
    rw [same] at message
    exact absurd message (other expected he)
  · exact rereads

end JsonShape.Schema
