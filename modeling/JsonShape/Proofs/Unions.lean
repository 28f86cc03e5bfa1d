import JsonShape.Proofs.Fields
import JsonShape.Proofs.Views

/-!
What a union does. It checks the property that its discriminant names as a `keyOf` of the declared tags does, and
runs the schema that was declared last for the tag on the whole value.
-/

namespace JsonShape

open Entries (names)

/-- What stands where the tag of a value should: the property of an object; an array has none. -/
inductive TagOf (discriminant : String) : Slot → Slot → Prop where
  | object (members : List (String × Value)) :
      TagOf discriminant (some (.object members)) (members.lookup discriminant)
  | array (items : List Value) : TagOf discriminant (some (.array items)) none

namespace Checks

variable {discriminant : String} {slot tag : Slot}

theorem tag_of_tagOf (h : TagOf discriminant slot tag) : Checks.tag discriminant slot = .ok tag := by
  cases h <;> rfl

theorem refused_of_kind (discriminant : String) (notObject : Kind.ofSlot slot ≠ .object)
    (notArray : Kind.ofSlot slot ≠ .array) :
    Checks.tag discriminant slot = .error (.wrongKind "object" slot) ∧
      properties slot = .error (.wrongKind "object" slot) := by
  cases slot with
  | none => exact ⟨rfl, rfl⟩
  | some v =>
      cases v with
      | object members => exact absurd rfl notObject
      | array items => exact absurd rfl notArray
      | _ => exact ⟨rfl, rfl⟩

end Checks

namespace Schema

variable {discriminant : String} {declarations : List (String × Schema)} {c : Context} {slot tag : Slot}

theorem declaredNames_eq (declarations : List (String × Schema)) :
    declaredNames declarations = distinctKeys (names declarations) :=
  Entries.names_standing declarations

theorem validate_union_of_refused {e : Failure} (h : TagOf discriminant slot tag)
    (refused : Checks.key (names declarations) tag = .error e) :
    (union discriminant declarations).validate c slot = .error (Checks.badTag discriminant e.cause) := by
  have found := Checks.tag_of_tagOf h
  by_cases isString : ∃ s, tag = some (.string s)
  · obtain ⟨s, rfl⟩ := isString
    rw [Checks.key_string] at refused
    split at refused
    next => cases refused
    next undeclared =>
      cases refused
      have none : (Entries.standing declarations).lookup s = none := by
        rwa [Entries.lookup_eq_none_iff, Entries.names_standing, List.mem_eraseDups]
      rw [validate_union_of_tag found, none, declaredNames_eq]
      rfl
  · have noTag : ∀ s, tag ≠ some (.string s) := fun s h => isString ⟨s, h⟩
    rw [Checks.key_of_other noTag] at refused
    cases refused
    exact validate_union_of_other found noTag

theorem validate_union_of_accepted {s : String} (h : TagOf discriminant slot tag)
    (accepted : Checks.key (names declarations) tag = .ok s) :
    ∃ variant, declarations.reverse.lookup s = some variant ∧
      (union discriminant declarations).validate c slot = variant.validate c slot := by
  obtain ⟨rfl, declared⟩ := (Checks.key_eq_ok_iff _ _ _).1 accepted
  rw [← List.mem_eraseDups, ← Entries.names_standing, Entries.mem_names_iff] at declared
  obtain ⟨variant, stands⟩ := declared
  refine ⟨variant, (Entries.lookup_standing declarations s).symm.trans stands, ?_⟩
  rw [validate_union_of_tag (Checks.tag_of_tagOf h), stands]

theorem fails_without_properties (discriminant : String) (declarations : List (String × Schema)) (c : Context)
    (notObject : Kind.ofSlot slot ≠ .object) (notArray : Kind.ofSlot slot ≠ .array) :
    ∃ f, ∀ schema ∈ [record [], union discriminant declarations],
      schema.validate c slot = .error f ∧ schema.interpret c slot = .error f := by
  obtain ⟨noTag, noProperties⟩ := Checks.refused_of_kind discriminant notObject notArray
  have recordFails : (record []).validate c slot = .error (.wrongKind "object" slot) := by
    rw [validate_record, noProperties]
  have unionFails : (union discriminant declarations).validate c slot = .error (.wrongKind "object" slot) := by
    rw [validate_union, noTag]
  refine ⟨_, List.forall_mem_cons.2 ⟨⟨recordFails, ?_⟩, List.forall_mem_singleton.2 ⟨unionFails, ?_⟩⟩⟩
  · rw [interpret_record, recordFails]
    rfl
  · rw [interpret_union, unionFails]
    rfl

/-- A union fails as a record without fields does where there is no object and no array. Otherwise it checks the
tag as a `keyOf` of the declared tags does: it fails with the same message at the discriminant, or returns what
the schema declared last for the tag makes of the whole value in the same context. -/
theorem union_checks_tag_then_dispatches (discriminant : String) (declarations : List (String × Schema))
    (c : Context) (slot : Slot) :
    let whole := union discriminant declarations
    let check := keyOf (names declarations)
    (Kind.ofSlot slot ≠ .object → Kind.ofSlot slot ≠ .array →
      ∃ f, ∀ schema ∈ [record [], whole],
        schema.validate c slot = .error f ∧ schema.interpret c slot = .error f) ∧
    ∀ tag, TagOf discriminant slot tag →
      (∀ e, check.validate c tag = .error e →
        ∃ f, whole.validate c slot = .error f ∧ whole.interpret c slot = .error f ∧
          f.message = e.message ∧ f.path = ⟨[.field discriminant]⟩ ∧ f.code = .invalidDiscriminant) ∧
      ∀ r, check.validate c tag = .ok r →
        ∃ s variant, r = some (.string s) ∧ declarations.reverse.lookup s = some variant ∧
          whole.validate c slot = variant.validate c slot ∧
          (whole.interpret c slot).map Typed.erase =
            (variant.validate c slot).map fun r => r.getD .null := by
  intro whole check
  refine ⟨fails_without_properties discriminant declarations c, fun tag isTag => ⟨fun e refused => ?_,
    fun r accepted => ?_⟩⟩
  · rw [validate_keyOf, Outcome.map_eq_error_iff] at refused
    have fails : whole.validate c slot = .error (Checks.badTag discriminant e.cause) :=
      validate_union_of_refused isTag refused
    refine ⟨_, fails, ?_, rfl, rfl, rfl⟩
    rw [interpret_union, fails]
    rfl
  · rw [validate_keyOf, Outcome.map_eq_ok_iff] at accepted
    obtain ⟨s, accepted, rfl⟩ := accepted
    obtain ⟨variant, declared, runs⟩ := validate_union_of_accepted (c := c) isTag accepted
    refine ⟨s, variant, rfl, declared, runs, ?_⟩
    rw [interpret_union, Outcome.map_map, ← runs]
    rfl

theorem union_checks_tag_then_dispatches_redeclared :
    let declarations := [("a", number), ("\"", any), ("a", record [("b", string)])]
    let whole := union "0" declarations
    let unknown : Value := .object [("0", .string "c")]
    let known : Value := .object [("0", .string "a")]
    (∃ f, whole.validate {} (some .null) = .error f ∧ (record []).validate {} (some .null) = .error f) ∧
    (∃ f, whole.validate {} (some (.array [.string "a"])) = .error f ∧
      f.message = "expected string, got undefined" ∧ f.path = ⟨[.field "0"]⟩ ∧
      f.code = .invalidDiscriminant) ∧
    (∃ f, whole.validate {} (some unknown) = .error f ∧
      f.message = "unknown key \"c\", expected one of \"a\", \"\\\"\"" ∧ f.path = ⟨[.field "0"]⟩ ∧
      f.code = .invalidDiscriminant) ∧
    whole.validate {} (some known) = (record [("b", string)]).validate {} (some known) := by
  intro declarations whole unknown known
  have rule := fun slot => union_checks_tag_then_dispatches "0" declarations {} slot
  obtain ⟨f, fails⟩ := (rule (some .null)).1 (by decide) (by decide)
  obtain ⟨g, refusedArray, -, messageArray, placeArray⟩ :=
    ((rule (some (.array [.string "a"]))).2 none (.array _)).1 _ rfl
  obtain ⟨h, refused, -, message, place⟩ :=
    ((rule (some unknown)).2 (some (.string "c")) (.object _)).1 _ rfl
  obtain ⟨s, variant, tag, declared, runs, -⟩ :=
    ((rule (some known)).2 (some (.string "a")) (.object _)).2 _ rfl
  refine ⟨⟨f, (fails whole (by simp [whole])).1, (fails (record []) (by simp)).1⟩,
    ⟨g, refusedArray, messageArray.trans (by decide), placeArray⟩,
    ⟨h, refused, message.trans (by decide), place⟩, ?_⟩
  cases tag
  cases declared
  exact runs

end Schema

end JsonShape
