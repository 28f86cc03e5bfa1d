import JsonShape.Proofs.Remaining

/-!
Cycles of references. A schema may hand a value on to what a name is bound to before it looks at the value, and
what that name is bound to may do the same. Such a run goes no further into the value, so nothing but the limit
ends it, and the failure stands at the root.
-/

namespace JsonShape

namespace Schema

/-- Whatever present value other than null it meets, the schema first hands it on to one of the names. -/
inductive PassesOn (names : String → Prop) : Schema → Prop where
  | ref {name : String} (member : names name) : PassesOn names (ref name)
  | optional {inner : Schema} (passes : PassesOn names inner) : PassesOn names (optional inner)
  | nullable {inner : Schema} (passes : PassesOn names inner) : PassesOn names (nullable inner)
  | and {first : Schema} (passes : PassesOn names first) (second : Schema) :
      PassesOn names (and first second)
  | or {first second : Schema} (passesFirst : PassesOn names first)
      (passesSecond : PassesOn names second) : PassesOn names (or first second)
  | stored {schema : Schema} (passes : PassesOn names schema) : PassesOn names (stored schema)

def Circular (names : String → Prop) (bound? : String → Option Schema) : Prop :=
  ∀ name, names name → ∃ target, bound? name = some target ∧ PassesOn names target

variable {names : String → Prop} {c : Context} {schema : Schema} {v : Value}

theorem tooDeep_of_below (circular : Circular names c.bound?)
    (below : ∀ child, c.descend = .ok child → ∀ schema : Schema, PassesOn names schema →
      schema.validate child (some v) = .error (.tooDeep child.maxDepth))
    (notNull : v ≠ .null) (passes : PassesOn names schema) :
    schema.validate c (some v) = .error (.tooDeep c.maxDepth) := by
  induction passes with
  | ref member =>
      obtain ⟨target, bound, passes⟩ := circular _ member
      rw [validate_ref_eq, Context.resolve_of_bound bound]
      cases descend : c.descend with
      | error f =>
          obtain ⟨-, rfl⟩ := (Context.descend_eq_error_iff c f).1 descend
          rfl
      | ok child =>
          rw [← Context.maxDepth_of_descend descend]
          exact below child descend target passes
  | optional _ ih =>
      rw [validate_optional]
      exact ih
  | nullable _ ih =>
      rw [validate_nullable c _ (by simpa using notNull)]
      exact ih
  | and _ second ih => rw [validate_and, ih]
  | or _ _ ihFirst ihSecond =>
      rw [validate_or, ihFirst]
      exact ihSecond
  | stored _ ih =>
      rw [validate_stored]
      exact ih

theorem tooDeep_of_circular (circular : Circular names c.bound?) (notNull : v ≠ .null)
    (passes : PassesOn names schema) :
    schema.validate c (some v) = .error (.tooDeep c.maxDepth) := by
  induction c using Context.induction generalizing schema with
  | step c below =>
      refine tooDeep_of_below circular (fun child descend schema passes => ?_) notNull passes
      refine below child descend ?_ passes
      rw [Context.bound?_of_descend descend]
      exact circular

end Schema

namespace Registry

open Schema

/-- Where names are bound to schemas that hand values on among these names, no value but null gets anywhere:
for every limit, validation ends in a failure at the root that tells of it. -/
theorem cycles_end_at_limit {r : Registry} {names : String → Prop} (circular : Circular names r.get?)
    {name : String} (member : names name) {v : Value} (notNull : v ≠ .null) (limit : Nat) :
    ∃ f, r.validate limit name v = .ok (.error f) ∧ f.code = .tooDeep ∧ f.path = .root ∧
      f.message = "too deeply nested (max depth " ++ toString limit ++ ")" := by
  obtain ⟨target, bound, passes⟩ := circular name member
  have circular' : Circular names (r.context limit).bound? := circular
  refine ⟨.tooDeep limit, ?_, rfl, rfl, rfl⟩
  rw [validate_of_get? bound, accept, tooDeep_of_circular circular' notNull passes]
  rfl

theorem cycles_end_at_limit_ring :
    let ring := Registry.empty.registerAll
      [("A", or (optional (ref "B")) (ref "A")), ("B", and (nullable (ref "C")) string), ("C", ref "A")]
    Circular (· ∈ ring.names) ring.get? ∧
      ∃ f, ring.validate 4 "B" (.string "b") = .ok (.error f) ∧ f.code = .tooDeep ∧ f.path = .root ∧
        f.message = "too deeply nested (max depth 4)" := by
  intro ring
  have circular : Circular (· ∈ ring.names) ring.get? := by
    intro name member
    have listed : name ∈ ["A", "B", "C"] := member
    obtain rfl | rfl | rfl : name = "A" ∨ name = "B" ∨ name = "C" := by simpa using listed
    · exact ⟨_, rfl, .or (.optional (.ref (by decide))) (.ref (by decide))⟩
    · exact ⟨_, rfl, .and (.nullable (.ref (by decide))) string⟩
    · exact ⟨_, rfl, .ref (by decide)⟩
  exact ⟨circular, cycles_end_at_limit circular (by decide) (by simp) 4⟩

/-- Null leaves a ring through `nullable`, and an array is looked at before its items go round. -/
example :
    (Registry.empty.registerAll [("N", nullable (ref "N"))]).validate 4 "N" .null = .ok (.ok .null) ∧
    (Registry.empty.registerAll [("T", array (ref "T"))]).validate 4 "T" (.array [.array []]) =
      .ok (.ok (.array [.array []])) := ⟨rfl, rfl⟩

end Registry

end JsonShape
