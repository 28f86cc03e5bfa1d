import JsonShape.Proofs.Failing
import JsonShape.Proofs.Lockstep
import JsonShape.Registry.Validation

/-!
The levels that are left. Of the depth of a context and its limit only the difference decides what a
validation does; the limit by itself is told by failures of the code `tooDeep` and by nothing else. Each
segment of the path of a failure was paid for with a level, but for the tag of a union, and where no reference
takes levels a failure that tells of the limit stands just as far in as there were levels left.
-/

namespace JsonShape

/-- The failure as it is under the limit `limit`. -/
def Failure.withLimit (limit : Nat) (f : Failure) : Failure :=
  if f.code = .tooDeep then { f with cause := .tooDeep limit } else f

def Outcome.withLimit {α : Type} (limit : Nat) : Outcome α → Outcome α
  | .ok a => .ok a
  | .error f => .error (f.withLimit limit)

structure Failure.UpToLimit (f g : Failure) : Prop where
  path : g.path = f.path
  code : g.code = f.code
  cause : f.code ≠ .tooDeep → g.cause = f.cause

theorem Failure.UpToLimit.eq_withLimit {f g : Failure} {limit : Nat} (h : f.UpToLimit g)
    (own : g.code = .tooDeep → g.cause = .tooDeep limit) : g = f.withLimit limit := by
  obtain ⟨path, code, cause⟩ := g
  obtain ⟨rfl, rfl, same⟩ := h
  unfold withLimit
  split
  next deep =>
    obtain rfl : cause = .tooDeep limit := own deep
    rfl
  next other =>
    obtain rfl : cause = f.cause := same other
    rfl

def Tie.upToLimit : Tie where
  holds f g := ∃ g', g = some g' ∧ f.UpToLimit g'
  refl f := ⟨f, rfl, rfl, rfl, fun _ => rfl⟩
  within s h := by
    obtain ⟨g, rfl, path, code, cause⟩ := h
    exact ⟨g.within s, rfl, congrArg (Path.within · s) path, code, cause⟩
  lost _ h := by
    obtain ⟨g, none, -⟩ := h
    cases none

namespace Outcome

variable {α β : Type} {limit : Nat}

theorem withLimit_map (limit : Nat) (g : α → β) (r : Outcome α) :
    withLimit limit (r.map g) = (withLimit limit r).map g := by
  cases r <;> rfl

theorem eq_withLimit_of_tied {r r' : Outcome α} (tied : Tied .upToLimit r r')
    (own : ∀ g, r' = .error g → g.code = .tooDeep → g.cause = .tooDeep limit) :
    r' = r.withLimit limit := by
  cases r with
  | ok a => exact tied
  | error f =>
      obtain ⟨g, failed, upTo⟩ := tied
      obtain rfl := (failure?_eq_some_iff r' g).1 failed
      exact congrArg Except.error (upTo.eq_withLimit (own g rfl))

end Outcome

namespace Context

structure SameLevels (c d : Context) : Prop where
  registry : d.registry = c.registry
  levels : d.remaining = c.remaining

variable {c d child : Context} {f : Failure}

theorem SameLevels.descend (same : c.SameLevels d) (h : c.descend = .ok child) :
    ∃ child', d.descend = .ok child' ∧ child.SameLevels child' := by
  obtain ⟨child', h', left⟩ := exists_descend h (Nat.le_of_eq same.levels.symm)
  have levels := same.levels
  exact ⟨child', h', registry_of_descends same.registry h h', by omega⟩

theorem SameLevels.limit (same : c.SameLevels d) (h : c.descend = .error f) :
    Tie.upToLimit.holds f d.descend.failure? := by
  obtain ⟨reached, rfl⟩ := (descend_eq_error_iff c f).1 h
  have none : d.remaining = 0 := same.levels.trans (Nat.sub_eq_zero_of_le reached)
  rw [descend_of_remaining_eq_zero none]
  exact ⟨.tooDeep d.maxDepth, rfl, rfl, rfl, fun other => absurd rfl other⟩

theorem remaining_of_limit (h : c.descend = .error f) : c.remaining = 0 :=
  Nat.sub_eq_zero_of_le ((descend_eq_error_iff c f).1 h).1

theorem maxDepth_of_descend (h : c.descend = .ok child) : child.maxDepth = c.maxDepth := by
  obtain ⟨-, rfl⟩ := (descend_eq_ok_iff c child).1 h
  rfl

theorem path_of_resolve {name : String} (h : c.resolve name = .error f) : f.path = .root := by
  obtain ⟨-, rfl⟩ | ⟨-, -, rfl⟩ | ⟨-, descend⟩ := resolve_eq_error_iff.1 h
  · rfl
  · rfl
  · obtain ⟨-, rfl⟩ := (descend_eq_error_iff c f).1 descend
    rfl

end Context

namespace Schema

variable {c : Context} {schema : Schema} {slot : Slot} {f : Failure}

theorem lockstep_sameLevels : Lockstep .upToLimit fun c d _ _ => c.SameLevels d where
  outer same _ := same
  second same _ := same
  alternative _ _ h := by
    obtain ⟨g, none, -⟩ := h
    cases none
  limit same _ descend := same.limit descend
  inner same _ descend := by
    obtain ⟨child', descend', below⟩ := same.descend descend
    exact ⟨child', descend', fun _ _ _ => below⟩
  unresolved {c d name slot f} same resolve := by
    cases bound : c.bound? name with
    | none =>
        rw [Context.resolve_of_unbound same.registry bound, resolve]
        exact Tie.upToLimit.refl f
    | some target =>
        rw [Context.resolve_of_bound bound, Outcome.map_eq_error_iff] at resolve
        rw [← Context.bound?_congr same.registry] at bound
        rw [Context.resolve_of_bound bound, Outcome.failure?_map]
        exact same.limit resolve
  target same resolve := by
    obtain ⟨bound, descend⟩ := Context.resolve_eq_ok_iff.1 resolve
    obtain ⟨child', descend', below⟩ := same.descend descend
    rw [← Context.bound?_congr same.registry] at bound
    exact ⟨child', Context.resolve_eq_ok_iff.2 ⟨bound, descend'⟩, below⟩

theorem cause_of_tooDeep (h : Fails c schema slot f) (code : f.code = .tooDeep) :
    f.cause = .tooDeep c.maxDepth := by
  induction h with
  | refused root other => rcases other with other | other <;> simp [other] at code
  | badTag discriminant cause => simp [Checks.badTag] at code
  | limit properties descend =>
      obtain ⟨-, rfl⟩ := (Context.descend_eq_error_iff _ _).1 descend
      rfl
  | unresolved resolve =>
      obtain ⟨-, rfl⟩ | ⟨-, -, rfl⟩ | ⟨-, descend⟩ := Context.resolve_eq_error_iff.1 resolve
      · simp [Failure.atRoot] at code
      · simp [Failure.atRoot] at code
      · obtain ⟨-, rfl⟩ := (Context.descend_eq_error_iff _ _).1 descend
        rfl
  | outer isPart _ ih => exact ih code
  | second run _ ih => exact ih code
  | inner properties descend isPart _ ih => exact Context.maxDepth_of_descend descend ▸ ih code
  | target resolve _ ih =>
      exact Context.maxDepth_of_descend (Context.resolve_eq_ok_iff.1 resolve).2 ▸ ih code

theorem fails_of_view (h : schema.validate c slot = .error f ∨ schema.interpret c slot = .error f) :
    Fails c schema slot f :=
  fails_of_validate (validate_of_view h)

theorem views_of_sameLevels {d : Context} (same : c.SameLevels d) (schema : Schema) (slot : Slot) :
    schema.validate d slot = (schema.validate c slot).withLimit d.maxDepth ∧
      schema.interpret d slot = (schema.interpret c slot).withLimit d.maxDepth :=
  ⟨Outcome.eq_withLimit_of_tied (lockstep_sameLevels.validate same) fun _ failed =>
      cause_of_tooDeep (fails_of_view (.inl failed)),
    Outcome.eq_withLimit_of_tied (lockstep_sameLevels.interpret same) fun _ failed =>
      cause_of_tooDeep (fails_of_view (.inr failed))⟩

theorem interpret_ref_of_bound {r : Registry} {name : String} {target : Schema}
    (bound : r.get? name = some target) (limit : Nat) (v : Value) :
    (ref name).interpret (r.context (limit + 1)) (some v) =
      ((r.accept limit target v).withLimit (limit + 1)).map .value := by
  obtain ⟨child, descend⟩ : ∃ child, (r.context (limit + 1)).descend = .ok child :=
    ⟨_, Context.descend_of_remaining_pos (Nat.succ_pos limit)⟩
  have left : limit + 1 = child.remaining + 1 := Context.remaining_of_descend descend
  have same : (r.context limit).SameLevels child :=
    ⟨(Context.registry_of_descend descend).trans rfl, (Nat.succ.inj left).symm⟩
  have bound' : (r.context (limit + 1)).bound? name = some target := bound
  rw [interpret_ref, validate_ref_eq, Context.resolve_of_bound bound', descend]
  change Except.map _ (target.validate child (some v)) = _
  rw [(views_of_sameLevels same target (some v)).1, Context.maxDepth_of_descend descend, Registry.accept,
    Outcome.withLimit_map, Outcome.map_map]
  rfl

/-- Of a context only its registry and the levels that it leaves decide how a run ends; the limit itself is
told by failures of the code `tooDeep` and by nothing else. So a value meets the same end through a registry,
by itself or as one of many, and through a reference with one level more. -/
theorem only_remaining_levels_count :
    (∀ (schema : Schema) (c d : Context), d.registry = c.registry → d.remaining = c.remaining → ∀ slot,
      schema.validate d slot = (schema.validate c slot).withLimit d.maxDepth ∧
        schema.interpret d slot = (schema.interpret c slot).withLimit d.maxDepth) ∧
    (∀ (schema : Schema) (c : Context) (slot : Slot) (f : Failure),
      schema.validate c slot = .error f ∨ schema.interpret c slot = .error f → f.code = .tooDeep →
        f.message = "too deeply nested (max depth " ++ toString c.maxDepth ++ ")") ∧
    ∀ (r : Registry) (name : String), name ∈ r.names → ∀ limit : Nat, ∃ outcome : Value → Outcome Value,
      (∀ v, r.validate limit name v = .ok (outcome v)) ∧
      (∀ vs, r.validateMany limit name vs = .ok (vs.map outcome)) ∧
      ∀ v, (ref name).interpret (r.context (limit + 1)) (some v) =
        ((outcome v).withLimit (limit + 1)).map .value := by
  refine ⟨fun schema c d registry levels => views_of_sameLevels ⟨registry, levels⟩ schema, ?_, ?_⟩
  · intro schema c slot f failed code
    rw [Failure.message, cause_of_tooDeep (fails_of_view failed) code]
    rfl
  · intro r name known limit
    obtain ⟨target, bound⟩ := (Entries.mem_names_iff _ _).1 known
    exact ⟨r.accept limit target, Registry.validate_of_get? bound limit,
      Registry.validateMany_of_get? bound limit, interpret_ref_of_bound bound limit⟩

theorem only_remaining_levels_count_trees :
    let trees := Registry.empty.registerAll [("Tree", array (ref "Tree"))]
    let lowered : Context := { registry := some trees, depth := 6, maxDepth := 4 }
    let reached : Context := { registry := some trees, depth := 2, maxDepth := 2 }
    lowered.remaining = reached.remaining ∧
      (or string (ref "Tree")).validate lowered (some (.array [])) = .error (.tooDeep 4) ∧
      (Failure.tooDeep 4).message = "too deeply nested (max depth 4)" ∧
      "Tree" ∈ trees.names ∧
      (ref "Tree").interpret (trees.context 3) (some (.array [.array [.array [.null]]])) =
        .error ⟨⟨[.index 0]⟩, .tooDeep, .tooDeep 3⟩ := by
  intro trees lowered reached
  have here : (or string (ref "Tree")).validate lowered (some (.array [])) = .error (.tooDeep 4) := by
    have run : (or string (ref "Tree")).validate reached (some (.array [])) = .error (.tooDeep 2) := rfl
    rw [(only_remaining_levels_count.1 _ reached lowered rfl rfl _).1, run]
    rfl
  have known : "Tree" ∈ trees.names := by decide
  have told : (Failure.tooDeep 4).message = "too deeply nested (max depth " ++ toString (4 : Nat) ++ ")" :=
    only_remaining_levels_count.2.1 _ lowered _ _ (.inl here) rfl
  refine ⟨rfl, here, told.trans (by decide), known, ?_⟩
  obtain ⟨outcome, validates, -, throughRef⟩ := only_remaining_levels_count.2.2 trees "Tree" known 2
  have run : trees.validate 2 "Tree" (.array [.array [.array [.null]]]) =
      .ok (.error ⟨⟨[.index 0]⟩, .tooDeep, .tooDeep 2⟩) := rfl
  rw [throughRef, Except.ok.inj ((validates _).symm.trans run)]
  rfl

theorem length_path_le (h : Fails c schema slot f) :
    f.path.length ≤ c.remaining + 1 ∧ (f.code ≠ .invalidDiscriminant → f.path.length ≤ c.remaining) := by
  induction h with
  | refused root code => simp [root]
  | badTag discriminant cause => exact ⟨Nat.le_add_left 1 _, fun other => absurd rfl other⟩
  | limit properties descend =>
      obtain ⟨-, rfl⟩ := (Context.descend_eq_error_iff _ _).1 descend
      exact ⟨Nat.zero_le _, fun _ => Nat.zero_le _⟩
  | unresolved resolve => simp [Context.path_of_resolve resolve]
  | outer isPart _ ih => exact ih
  | second run _ ih => exact ih
  | inner properties descend isPart _ ih =>
      have left := Context.remaining_of_descend descend
      rw [Failure.path_within, Path.length_within, Failure.code_within, left]
      exact ⟨Nat.succ_le_succ ih.1, fun other => Nat.succ_le_succ (ih.2 other)⟩
  | target resolve _ ih =>
      have left := Context.remaining_of_descend (Context.resolve_eq_ok_iff.1 resolve).2
      exact ⟨by omega, fun other => by have := ih.2 other; omega⟩

theorem length_path_of_tooDeep (h : Fails c schema slot f) (code : f.code = .tooDeep)
    (refFree : ∀ name, ¬schema.Contains (ref name)) : f.path.length = c.remaining := by
  induction h with
  | refused root other => rcases other with other | other <;> simp [other] at code
  | badTag discriminant cause => simp [Checks.badTag] at code
  | limit properties descend =>
      rw [Context.remaining_of_limit descend]
      obtain ⟨-, rfl⟩ := (Context.descend_eq_error_iff _ _).1 descend
      rfl
  | unresolved resolve => exact absurd (.self _) (refFree _)
  | outer isPart _ ih => exact ih code fun name inside => refFree name (.outer isPart inside)
  | second run _ ih =>
      exact ih code fun name inside => refFree name (.outer (by simp [outerParts]) inside)
  | inner properties descend isPart _ ih =>
      have left := Context.remaining_of_descend descend
      rw [Failure.path_within, Path.length_within, left]
      exact congrArg (· + 1) (ih code fun name inside => refFree name (.inner isPart inside))
  | target resolve _ _ => exact absurd (.self _) (refFree _)

/-- No path of a failure has more segments than there are levels left, but one that ends in a refused tag,
which may have one more. Where the schema holds no reference, a failure that tells of the limit stands exactly
as many levels in as are left. -/
theorem levels_bound_paths (h : schema.validate c slot = .error f ∨ schema.interpret c slot = .error f) :
    f.path.length ≤ (if f.code = .invalidDiscriminant then c.remaining + 1 else c.remaining) ∧
      (f.code = .tooDeep → f.path.length ≤ c.remaining ∧
        ((∀ name, ¬schema.Contains (ref name)) → f.path.length = c.remaining)) := by
  have fails := fails_of_view h
  obtain ⟨tagged, untagged⟩ := length_path_le fails
  refine ⟨?_, fun code => ⟨untagged (by simp [code]), length_path_of_tooDeep fails code⟩⟩
  split
  · exact tagged
  next other => exact untagged other

theorem levels_bound_paths_tagged :
    let schema := array (union "kind" [("row", record [("cells", array (array boolean))])])
    let grid : Value := .array [.object [("cells", .array [.array [.null]]), ("kind", .string "row")]]
    schema.validate { maxDepth := 3 } (some grid) =
        .error ⟨⟨[.index 0, .field "cells", .index 0]⟩, .tooDeep, .tooDeep 3⟩ ∧
      (∀ name, ¬schema.Contains (ref name)) ∧
      Path.length ⟨[.index 0, .field "cells", .index 0]⟩ = Context.remaining { maxDepth := 3 } := by
  intro schema grid
  have run : schema.validate { maxDepth := 3 } (some grid) =
      .error ⟨⟨[.index 0, .field "cells", .index 0]⟩, .tooDeep, .tooDeep 3⟩ := rfl
  have refFree : ∀ name, ¬schema.Contains (ref name) := by
    intro name inside
    have none : schema.references = [] := rfl
    have referenced := references_of_contains inside (List.mem_singleton_self name)
    simp [none] at referenced
  exact ⟨run, refFree, ((levels_bound_paths (.inl run)).2 rfl).2 refFree⟩

/-- A refused tag stands one segment further in, and a reference takes a level without a segment. -/
example :
    ((array (union "kind" [])).validate { maxDepth := 1 } (some (.array [.object []]))).failure?.map
        (fun f => f.path) = some ⟨[.index 0, .field "kind"]⟩ ∧
    ((ref "Tree").validate
        { registry := some (Registry.empty.registerAll [("Tree", array (ref "Tree"))]), maxDepth := 1 }
        (some (.array [.null]))).failure? = some (.tooDeep 1) := ⟨rfl, rfl⟩

end Schema

end JsonShape
