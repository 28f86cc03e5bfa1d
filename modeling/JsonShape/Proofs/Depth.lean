import JsonShape.Proofs.Failing
import JsonShape.Proofs.Lockstep
import JsonShape.Proofs.Preservation
import JsonShape.Proofs.Value.Height

/-!
How many levels are enough. A reference that is exposed is followed without going into the value: it costs
a level and no height. Ranks that fall along exposed references bound how many of them follow one another;
with ranks up to `top`, going one step into the value costs at most `top + 1` levels. A context that
leaves as many as the height of the value asks for is never too small, and as good as any other such.
-/

namespace JsonShape.Schema

theorem inherited_height : Inherited fun new old : Value => new.height ≤ old.height where
  refl v := Nat.le_refl v.height
  trans := Nat.le_trans
  array {new old} length items := by
    refine Value.height_array_le fun v hv => ?_
    obtain ⟨i, hi⟩ := List.getElem?_of_mem hv
    have hlt : i < old.length := length ▸ (List.getElem?_eq_some_iff.1 hi).1
    exact ⟨old[i], List.getElem_mem hlt, items i v _ hi (List.getElem?_eq_getElem hlt)⟩
  record {v own results} properties distinct kept := by
    refine Value.height_object_le (Value.height_pos properties) fun e he => ?_
    rcases mem_of_mem_merge he with he | he
    · exact Value.height_property_lt properties he
    · have hk := kept _ he
      cases ho : own.lookup e.1 with
      | none => simp [ho] at hk
      | some w =>
          rw [ho] at hk
          have hw := Value.height_property_lt properties (Entries.mem_of_lookup ho)
          cases hk with
          | some le => exact Nat.lt_of_le_of_lt le hw

theorem height_le_of_validate {schema : Schema} {c : Context} {slot r : Slot}
    (h : schema.validate c slot = .ok r) : r.height ≤ slot.height := by
  cases inherited_height.of_validate h with
  | none => exact Nat.le_refl 0
  | some le => exact le

/-- The names have ranks from 1 to `top`, and what one of them is bound to exposes only references of lower
rank. -/
structure Ranked (rank : String → Nat) (top : Nat) (bound? : String → Option Schema)
    (names : String → Prop) : Prop where
  inRange : ∀ name, names name → 1 ≤ rank name ∧ rank name ≤ top
  falling : ∀ name target, names name → bound? name = some target →
    ∀ next, target.Exposes next → rank next < rank name

theorem Ranked.mono {rank : String → Nat} {top : Nat} {bound? : String → Option Schema}
    {names fewer : String → Prop} (ranked : Ranked rank top bound? names)
    (h : ∀ name, fewer name → names name) : Ranked rank top bound? fewer where
  inRange name hn := ranked.inRange name (h name hn)
  falling name target hn := ranked.falling name target (h name hn)

/-- The context leaves levels for the slot: `top + 1` for each step into it, and before the first of them
one for each reference that may follow another, of which the ranks tell. -/
structure Affords (rank : String → Nat) (top : Nat) (c : Context) (schema : Schema) (slot : Slot) :
    Prop where
  ranked : Ranked rank top c.bound? (Reaches c.bound? schema)
  levels : ∃ start ≤ top, (∀ name, schema.Exposes name → rank name ≤ start) ∧
    start + (top + 1) * slot.height ≤ c.remaining

namespace Affords

variable {rank : String → Nat} {top : Nat} {c child : Context} {whole part : Schema} {slot : Slot}

theorem outer (affords : Affords rank top c whole slot) (isPart : part ∈ whole.outerParts) :
    Affords rank top c part slot where
  ranked := affords.ranked.mono fun _ h => h.of_outerPart isPart
  levels := by
    obtain ⟨start, le, exposed, levels⟩ := affords.levels
    exact ⟨start, le, fun name h => exposed name (.outer isPart h), levels⟩

theorem lower {narrowed : Slot} (affords : Affords rank top c whole slot)
    (le : narrowed.height ≤ slot.height) : Affords rank top c whole narrowed where
  ranked := affords.ranked
  levels := by
    obtain ⟨start, hs, exposed, levels⟩ := affords.levels
    have lower := Nat.mul_le_mul_left (top + 1) le
    exact ⟨start, hs, exposed, by omega⟩

theorem inner {v : Value} {own : Entries Value} (affords : Affords rank top c whole (some v))
    (properties : v.properties? = some own) (descend : c.descend = .ok child)
    (isPart : part ∈ whole.innerParts) (s : Segment) :
    Affords rank top child part (v.child? s) where
  ranked := by
    rw [Context.bound?_of_descend descend]
    exact affords.ranked.mono fun _ h => h.of_innerPart isPart
  levels := by
    obtain ⟨start, -, -, levels⟩ := affords.levels
    have remaining := Context.remaining_of_descend descend
    have lower : (top + 1) * (Slot.height (v.child? s) + 1) ≤ (top + 1) * v.height :=
      Nat.mul_le_mul_left _ (Value.height_child?_lt properties s)
    rw [Nat.mul_succ] at lower
    have hv : Slot.height (some v) = v.height := rfl
    rw [hv] at levels
    -- Below a step as many references as at all may follow one another again; the step has paid for them.
    refine ⟨top, Nat.le_refl top, fun name h => ?_, by omega⟩
    have reached : Reaches c.bound? whole name :=
      .of_innerPart isPart (.reference (references_of_exposes h))
    exact (affords.ranked.inRange name reached).2

theorem target {name : String} {target : Schema} (affords : Affords rank top c (ref name) slot)
    (resolve : c.resolve name = .ok (target, child)) : Affords rank top child target slot := by
  obtain ⟨bound, descend⟩ := Context.resolve_eq_ok_iff.1 resolve
  have remaining := Context.remaining_of_descend descend
  have inRange := affords.ranked.inRange name (.ref name)
  obtain ⟨start, le, exposed, levels⟩ := affords.levels
  have hstart := exposed name (.ref name)
  refine ⟨?_, rank name - 1, by omega, fun next h => ?_, by omega⟩
  · rw [Context.bound?_of_descend descend]
    exact affords.ranked.mono fun _ h => .of_target bound h
  · have lower := affords.ranked.falling name target (.ref name) bound next h
    omega

theorem remaining_pos {v : Value} {own : Entries Value}
    (affords : Affords rank top c whole (some v)) (properties : v.properties? = some own) :
    0 < c.remaining := by
  obtain ⟨start, -, -, levels⟩ := affords.levels
  have pos := Nat.mul_le_mul_left (top + 1) (Value.height_pos properties)
  have hv : Slot.height (some v) = v.height := rfl
  rw [hv] at levels
  omega

theorem remaining_pos_of_ref {name : String} (affords : Affords rank top c (ref name) slot) :
    0 < c.remaining := by
  have inRange := affords.ranked.inRange name (.ref name)
  obtain ⟨start, le, exposed, levels⟩ := affords.levels
  have hstart := exposed name (.ref name)
  omega

end Affords

variable {rank : String → Nat} {top : Nat}

theorem not_tooDeep_of_fails {c : Context} {schema : Schema} {slot : Slot} {f : Failure}
    (h : Fails c schema slot f) (affords : Affords rank top c schema slot) : f.code ≠ .tooDeep := by
  induction h with
  | refused root code =>
      rcases code with code | code <;> simp [code]
  | badTag discriminant cause => simp [Checks.badTag]
  | limit properties descend =>
      have pos := affords.remaining_pos properties
      rw [Context.descend_of_remaining_pos pos] at descend
      cases descend
  | unresolved resolve =>
      obtain ⟨-, rfl⟩ | ⟨-, -, rfl⟩ | ⟨-, descend⟩ := Context.resolve_eq_error_iff.1 resolve
      · simp [Failure.atRoot]
      · simp [Failure.atRoot]
      · rw [Context.descend_of_remaining_pos affords.remaining_pos_of_ref] at descend
        cases descend
  | outer isPart _ ih => exact ih (affords.outer isPart)
  | second run _ ih =>
      exact ih ((affords.outer (by simp [outerParts])).lower (height_le_of_validate run))
  | inner properties descend isPart _ ih =>
      rw [Failure.code_within]
      exact ih (affords.inner properties descend isPart _)
  | target resolve _ ih => exact ih (affords.target resolve)

structure BothAfford (rank : String → Nat) (top : Nat) (c d : Context) (schema : Schema)
    (slot : Slot) : Prop where
  registry : d.registry = c.registry
  left : Affords rank top c schema slot
  right : Affords rank top d schema slot

theorem lockstep_bothAfford : Lockstep .same (BothAfford rank top) where
  outer both isPart := ⟨both.registry, both.left.outer isPart, both.right.outer isPart⟩
  second both run :=
    have le := height_le_of_validate run
    ⟨both.registry, (both.left.outer (by simp [outerParts])).lower le,
      (both.right.outer (by simp [outerParts])).lower le⟩
  alternative _ _ h := nomatch h
  limit both properties descend := by
    rw [Context.descend_of_remaining_pos (both.left.remaining_pos properties)] at descend
    cases descend
  inner both properties descend := by
    have descend' := Context.descend_of_remaining_pos (both.right.remaining_pos properties)
    refine ⟨_, descend', fun part isPart s => ⟨?_, ?_, ?_⟩⟩
    · exact both.registry.trans (Context.registry_of_descend descend).symm
    · exact both.left.inner properties descend isPart s
    · exact both.right.inner properties descend' isPart s
  unresolved both resolve := by
    refine (Outcome.failure?_eq_some_iff _ _).2 (Context.resolve_eq_error_iff.2 ?_)
    obtain ⟨none, rfl⟩ | ⟨some, unbound, rfl⟩ | ⟨-, descend⟩ := Context.resolve_eq_error_iff.1 resolve
    · exact .inl ⟨both.registry.trans none, rfl⟩
    · refine .inr (.inl ⟨both.registry ▸ some, ?_, rfl⟩)
      rw [Context.bound?_congr both.registry]
      exact unbound
    · rw [Context.descend_of_remaining_pos both.left.remaining_pos_of_ref] at descend
      cases descend
  target both resolve := by
    obtain ⟨bound, descend⟩ := Context.resolve_eq_ok_iff.1 resolve
    have descend' := Context.descend_of_remaining_pos both.right.remaining_pos_of_ref
    have bound' := Context.bound?_congr both.registry ▸ bound
    have resolve' := Context.resolve_eq_ok_iff.2 ⟨bound', descend'⟩
    refine ⟨_, resolve', ?_, both.left.target resolve, both.right.target resolve'⟩
    exact both.registry.trans (Context.registry_of_descend descend).symm

theorem Ranked.affords {c : Context} {schema : Schema} {slot : Slot}
    (ranked : Ranked rank top c.bound? (Referenced c.bound? schema))
    (enough : (top + 1) * (slot.height + 1) - 1 ≤ c.remaining) :
    Affords rank top c schema slot where
  ranked := ranked.mono fun _ h => h.referenced
  levels := by
    rw [Nat.mul_succ] at enough
    refine ⟨top, Nat.le_refl top, fun name h => ?_, by omega⟩
    exact (ranked.inRange name (.inl (references_of_exposes h))).2

/-- Where the referenced names are ranked, a context that leaves `(top + 1) * (height + 1) - 1` levels for a
slot is large enough: no view tells of the limit, and any two such contexts with one registry let both views
end alike, also where an `or` tries its schemas. -/
theorem levels_suffice {c : Context} {schema : Schema}
    (ranked : Ranked rank top c.bound? (Referenced c.bound? schema)) (slot : Slot)
    (enough : (top + 1) * (slot.height + 1) - 1 ≤ c.remaining) :
    (∀ f, schema.validate c slot = .error f ∨ schema.interpret c slot = .error f → f.code ≠ .tooDeep) ∧
    ∀ d, d.registry = c.registry → (top + 1) * (slot.height + 1) - 1 ≤ d.remaining →
      schema.validate d slot = schema.validate c slot ∧
        schema.interpret d slot = schema.interpret c slot := by
  refine ⟨fun f failed => ?_, fun d registry enough' => ?_⟩
  · exact not_tooDeep_of_fails (fails_of_validate (validate_of_view failed)) (ranked.affords enough)
  · have rankedThere : Ranked rank top d.bound? (Referenced d.bound? schema) := by
      rw [Context.bound?_congr registry]
      exact ranked
    have both : BothAfford rank top c d schema slot :=
      ⟨registry, ranked.affords enough, rankedThere.affords enough'⟩
    exact ⟨Outcome.eq_of_tied (lockstep_bothAfford.validate both),
      Outcome.eq_of_tied (lockstep_bothAfford.interpret both)⟩

def aliasedNodes : Registry :=
  Registry.empty.registerAll
    [("Alias", nullable (ref "Node")), ("Node", record [("next", optional (ref "Alias"))])]

theorem levels_suffice_aliased :
    Ranked (fun name => if name = "Alias" then 2 else 1) 2
      (Context.bound? { registry := some aliasedNodes, maxDepth := 8 })
      (Referenced (Context.bound? { registry := some aliasedNodes, maxDepth := 8 }) (ref "Alias")) ∧
    (ref "Alias").validate { registry := some aliasedNodes, depth := 2, maxDepth := 16 }
        (some (.object [("next", .object [])])) =
      (ref "Alias").validate { registry := some aliasedNodes, maxDepth := 8 }
        (some (.object [("next", .object [])])) := by
  have ranked : Ranked (fun name => if name = "Alias" then 2 else 1) 2
      (Context.bound? { registry := some aliasedNodes, maxDepth := 8 })
      (Referenced (Context.bound? { registry := some aliasedNodes, maxDepth := 8 }) (ref "Alias")) := by
    refine ⟨fun name _ => by split <;> omega, fun name target _ bound next exposes => ?_⟩
    have hl : ([("Alias", nullable (ref "Node")), ("Node", record [("next", optional (ref "Alias"))])] :
        Entries Schema).lookup name = some target := bound
    obtain ⟨rfl, rfl⟩ | ⟨rfl, rfl⟩ : (name = "Alias" ∧ target = nullable (ref "Node")) ∨
        (name = "Node" ∧ target = record [("next", optional (ref "Alias"))]) := by
      simpa using Entries.mem_of_lookup hl
    · cases exposes with
      | outer isPart inside =>
          obtain rfl := List.mem_singleton.1 isPart
          cases inside with
          | ref => decide
          | outer isPart => cases isPart
    · cases exposes with
      | outer isPart => cases isPart
  refine ⟨ranked, ?_⟩
  exact ((levels_suffice ranked (some (.object [("next", .object [])])) (by decide)).2
    { registry := some aliasedNodes, depth := 2, maxDepth := 16 } rfl (by decide)).1

/-- The bound is sharp: a node whose next one is not there takes three levels to tell so. -/
example :
    let nodes := Registry.empty.registerAll [("Node", record [("next", nullable (ref "Node"))])]
    ((ref "Node").validate { registry := some nodes, maxDepth := 3 } (some (.object []))).failure?.map
        Failure.code = some .invalidType ∧
    ((ref "Node").validate { registry := some nodes, maxDepth := 2 } (some (.object []))).failure?.map
        Failure.code = some .tooDeep := ⟨rfl, rfl⟩

end JsonShape.Schema
