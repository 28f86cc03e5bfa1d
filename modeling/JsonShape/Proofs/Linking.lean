import JsonShape.Proofs.Failing
import JsonShape.Proofs.Lockstep
import JsonShape.Registry.Validation

/-!
What a validation takes from a registry. A run looks up no name but those that its schema reaches. So a
reference that finds nothing bound to its name is one that the registry lists as unresolved, and registries
that agree on the names that a schema reaches let it run alike.
-/

namespace JsonShape

namespace Schema

/-- What the failure tells of missing bindings is so: there is no registry, or the schema reaches a name that
is not bound. -/
structure TellsMissing (c : Context) (schema : Schema) (f : Failure) : Prop where
  registry : f.code = .missingRegistry → c.registry = none
  reference : f.code = .missingReference → ∃ missing, Reaches c.bound? schema missing ∧
    c.bound? missing = none ∧ f.cause = .unboundReference missing

theorem TellsMissing.of_part {c child : Context} {whole part : Schema} {f : Failure}
    (tells : TellsMissing child part f) (registry : child.registry = c.registry)
    (sub : ∀ name, Reaches c.bound? part name → Reaches c.bound? whole name) :
    TellsMissing c whole f where
  registry code := registry.symm.trans (tells.registry code)
  reference code := by
    obtain ⟨missing, reached, unbound, cause⟩ := tells.reference code
    rw [Context.bound?_congr registry] at reached unbound
    exact ⟨missing, sub missing reached, unbound, cause⟩

theorem tellsMissing_of_resolve {c : Context} {name : String} {f : Failure}
    (h : c.resolve name = .error f) : TellsMissing c (ref name) f := by
  obtain ⟨none, rfl⟩ | ⟨-, unbound, rfl⟩ | ⟨-, descend⟩ := Context.resolve_eq_error_iff.1 h
  · exact ⟨fun _ => none, nofun⟩
  · exact ⟨nofun, fun _ => ⟨name, .ref name, unbound, rfl⟩⟩
  · obtain ⟨-, rfl⟩ := (Context.descend_eq_error_iff c f).1 descend
    exact ⟨nofun, nofun⟩

theorem tellsMissing_of_fails {c : Context} {schema : Schema} {slot : Slot} {f : Failure}
    (h : Fails c schema slot f) : TellsMissing c schema f := by
  induction h with
  | refused root code =>
      constructor <;> rcases code with code | code <;> simp [code]
  | badTag discriminant cause => exact ⟨nofun, nofun⟩
  | limit properties descend =>
      obtain ⟨-, rfl⟩ := (Context.descend_eq_error_iff _ _).1 descend
      exact ⟨nofun, nofun⟩
  | unresolved resolve => exact tellsMissing_of_resolve resolve
  | outer isPart _ ih => exact ih.of_part rfl fun _ h => h.of_outerPart isPart
  | second run _ ih => exact ih.of_part rfl fun _ h => h.of_outerPart (by simp [outerParts])
  | inner properties descend isPart _ ih =>
      have tells := ih.of_part (Context.registry_of_descend descend) fun _ h => h.of_innerPart isPart
      exact ⟨tells.registry, tells.reference⟩
  | target resolve _ ih =>
      obtain ⟨bound, descend⟩ := Context.resolve_eq_ok_iff.1 resolve
      exact ih.of_part (Context.registry_of_descend descend) fun _ h => h.of_target bound

end Schema

namespace Registry

open Schema

theorem error_of_validate {r : Registry} {limit : Nat} {name : String} {v : Value} {f : Failure}
    (h : r.validate limit name v = .ok (.error f)) :
    ∃ schema, r.get? name = some schema ∧ schema.validate (r.context limit) (some v) = .error f := by
  cases bound : r.get? name with
  | none => simp [validate_of_unbound bound] at h
  | some schema =>
      rw [validate_of_get? bound] at h
      exact ⟨schema, rfl, (Outcome.map_eq_error_iff _ _ f).1 (Except.ok.inj h)⟩

theorem mem_unresolved_of_reaches {r : Registry} {name missing : String} {schema : Schema}
    (bound : r.get? name = some schema) (reached : Reaches r.get? schema missing)
    (unbound : r.get? missing = none) : missing ∈ r.unresolved := by
  refine (mem_unresolved_iff r missing).2 ⟨?_, unbound⟩
  obtain here | there := reached.referenced
  · exact ⟨name, schema, bound, here⟩
  · exact there

/-- Validation through a registry never misses the registry, and misses no reference but one that the
registry lists as unresolved, which the message names. Where nothing is unresolved, none is missed. -/
theorem missing_reference_is_unresolved {r : Registry} {limit : Nat} {name : String} {v : Value}
    {f : Failure} (h : r.validate limit name v = .ok (.error f)) :
    f.code ≠ .missingRegistry ∧
    (f.code = .missingReference →
      ∃ missing ∈ r.unresolved, f.message = "schema '" ++ missing ++ "' not found in registry") ∧
    (r.unresolved = [] → f.code ≠ .missingReference) := by
  obtain ⟨schema, bound, run⟩ := error_of_validate h
  have tells := tellsMissing_of_fails (fails_of_validate run)
  have names : (r.context limit).bound? = r.get? := funext (Context.bound?_of_registry rfl)
  have listed : f.code = .missingReference → ∃ missing ∈ r.unresolved,
      f.message = "schema '" ++ missing ++ "' not found in registry" := by
    intro code
    obtain ⟨missing, reached, unbound, cause⟩ := tells.reference code
    rw [names] at reached unbound
    exact ⟨missing, mem_unresolved_of_reaches bound reached unbound, by rw [Failure.message, cause]; rfl⟩
  refine ⟨fun code => ?_, listed, fun none code => ?_⟩
  · cases tells.registry code
  · obtain ⟨missing, unresolved, -⟩ := listed code
    rw [none] at unresolved
    cases unresolved

theorem missing_reference_is_unresolved_article :
    let r := Registry.empty.registerAll
      [("Order", record [("lines", stored (array (ref "Line")))]),
        ("Line", record [("article", ref "Article"), ("order", optional (ref "Order"))])]
    r.validate 8 "Order" (.object [("lines", .array [.object []])]) =
        .ok (.error ⟨⟨[.field "lines", .index 0, .field "article"]⟩, .missingReference,
          .unboundReference "Article"⟩) ∧
      ∃ missing ∈ r.unresolved,
        Cause.message (.unboundReference "Article") = "schema '" ++ missing ++ "' not found in registry" := by
  intro r
  have run : r.validate 8 "Order" (.object [("lines", .array [.object []])]) =
      .ok (.error ⟨⟨[.field "lines", .index 0, .field "article"]⟩, .missingReference,
        .unboundReference "Article"⟩) := rfl
  exact ⟨run, (missing_reference_is_unresolved run).2.1 rfl⟩

end Registry

namespace Schema

structure Agreeing (r s : Registry) (c d : Context) (schema : Schema) (_slot : Slot) : Prop where
  first : c.registry = some r
  second : d = { c with registry := some s }
  agree : ∀ name, Reaches r.get? schema name → s.get? name = r.get? name

namespace Agreeing

variable {r s : Registry} {c d child : Context} {schema part : Schema} {slot other : Slot}

theorem of_sub (agreeing : Agreeing r s c d schema slot)
    (sub : ∀ name, Reaches r.get? part name → Reaches r.get? schema name) :
    Agreeing r s c d part other :=
  ⟨agreeing.first, agreeing.second, fun name h => agreeing.agree name (sub name h)⟩

theorem descend (agreeing : Agreeing r s c d schema slot) (h : c.descend = .ok child) :
    ∃ child', d.descend = .ok child' ∧ Agreeing r s child child' schema slot := by
  refine ⟨{ child with registry := some s }, ?_, ?_, rfl, agreeing.agree⟩
  · rw [agreeing.second, Context.descend_with_registry, h]
    rfl
  · exact (Context.registry_of_descend h).trans agreeing.first

theorem resolve {name : String} (agreeing : Agreeing r s c d (ref name) slot) :
    d.resolve name = (c.resolve name).map fun e => (e.1, { e.2 with registry := some s }) := by
  rw [agreeing.second, Context.resolve_with_registry agreeing.first (agreeing.agree name (.ref name))]

end Agreeing

theorem lockstep_agreeing (r s : Registry) : Lockstep .same (Agreeing r s) where
  outer agreeing isPart := agreeing.of_sub fun _ h => h.of_outerPart isPart
  second agreeing _ := agreeing.of_sub fun _ h => h.of_outerPart (by simp [outerParts])
  alternative _ _ h := nomatch h
  limit agreeing _ descend := by
    rw [agreeing.second, Context.descend_with_registry, descend]
    rfl
  inner agreeing _ descend := by
    obtain ⟨child', descend', below⟩ := agreeing.descend descend
    exact ⟨child', descend', fun part isPart s => below.of_sub fun _ h => h.of_innerPart isPart⟩
  unresolved agreeing resolve := by
    rw [agreeing.resolve, resolve]
    rfl
  target agreeing resolve := by
    obtain ⟨bound, descend⟩ := Context.resolve_eq_ok_iff.1 resolve
    rw [Context.bound?_of_registry agreeing.first] at bound
    obtain ⟨child', descend', below⟩ := agreeing.descend descend
    refine ⟨child', ?_, below.of_sub fun _ h => h.of_target bound⟩
    rw [agreeing.resolve, resolve, below.second]
    rfl

theorem runs_alike {schema : Schema} {r s : Registry}
    (agree : ∀ name, Reaches r.get? schema name → s.get? name = r.get? name) (depth limit : Nat)
    (slot : Slot) :
    schema.validate ⟨some s, depth, limit⟩ slot = schema.validate ⟨some r, depth, limit⟩ slot ∧
      schema.interpret ⟨some s, depth, limit⟩ slot = schema.interpret ⟨some r, depth, limit⟩ slot := by
  have agreeing : Agreeing r s ⟨some r, depth, limit⟩ ⟨some s, depth, limit⟩ schema slot :=
    ⟨rfl, rfl, agree⟩
  exact ⟨Outcome.eq_of_tied ((lockstep_agreeing r s).validate agreeing),
    Outcome.eq_of_tied ((lockstep_agreeing r s).interpret agreeing)⟩

/-- A schema takes from a registry what the names that it reaches are bound to, and nothing else: registries
that agree on these names let both views end alike. So once all names that a bound schema reaches are bound,
no later registration changes what the schema makes of a value. -/
theorem depends_only_on_reached :
    (∀ (schema : Schema) (r s : Registry),
      (∀ name, Reaches r.get? schema name → s.get? name = r.get? name) → ∀ depth limit slot,
        schema.validate ⟨some s, depth, limit⟩ slot = schema.validate ⟨some r, depth, limit⟩ slot ∧
        schema.interpret ⟨some s, depth, limit⟩ slot = schema.interpret ⟨some r, depth, limit⟩ slot) ∧
    ∀ (r : Registry) (name : String) (schema : Schema), r.get? name = some schema →
      (∀ next, Reaches r.get? schema next → next ∈ r.names) → ∀ requests limit v,
        (r.registerAll requests).validate limit name v = r.validate limit name v := by
  refine ⟨fun schema r s agree => runs_alike agree, ?_⟩
  intro r name schema bound closed requests limit v
  have agree : ∀ next, Reaches r.get? schema next →
      (r.registerAll requests).get? next = r.get? next := by
    intro next reached
    obtain ⟨target, here⟩ := (Entries.mem_names_iff _ _).1 (closed next reached)
    exact (Registry.get?_registerAll here requests).trans here.symm
  rw [Registry.validate_of_get? bound,
    Registry.validate_of_get? (Registry.get?_registerAll bound requests)]
  have run := (runs_alike agree 0 limit (some v)).1
  exact congrArg (fun o => Except.ok (o.map fun slot => slot.getD .null)) run

theorem depends_only_on_reached_trees :
    let trees := Registry.empty.registerAll [("Tree", array (ref "Tree"))]
    let others := Registry.empty.registerAll [("Leaf", string), ("Tree", array (ref "Tree"))]
    (or (ref "Tree") boolean).validate { registry := some others, maxDepth := 8 }
        (some (.array [.array [.bool true]])) =
      (or (ref "Tree") boolean).validate { registry := some trees, maxDepth := 8 }
        (some (.array [.array [.bool true]])) ∧
    (trees.registerAll [("Tree", any), ("Leaf", string)]).validate 8 "Tree" (.array [.bool true]) =
      .ok (.error ⟨⟨[.index 0]⟩, .invalidType, .wrongKind "array" .boolean⟩) := by
  intro trees others
  have reaches : ∀ schema : Schema, (∀ n ∈ schema.references, n = "Tree") → ∀ name,
      Reaches trees.get? schema name → name = "Tree" := by
    intro schema references name reached
    refine reached.least (fun n => n = "Tree") references ?_
    rintro _ target rfl bound next isNext
    cases bound
    exact List.mem_singleton.1 isNext
  refine ⟨?_, ?_⟩
  · refine (depends_only_on_reached.1 (or (ref "Tree") boolean) trees others ?_ 0 8 _).1
    intro name reached
    rw [reaches _ (by simp [references]) name reached]
    rfl
  · refine (depends_only_on_reached.2 trees "Tree" (array (ref "Tree")) rfl ?_ _ 8 _).trans rfl
    intro next reached
    rw [reaches _ (by simp [references]) next reached]
    decide

end Schema

end JsonShape
