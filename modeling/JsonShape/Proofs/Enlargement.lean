import JsonShape.Proofs.Lockstep

/-!
Larger contexts. A context that leaves more levels and binds more names changes only outcomes that told of
the limit or of a reference that did not resolve. No schema at hand may have an `or` for that: it would
hide such a failure and let its second schema decide.
-/

namespace JsonShape

/-- The codes that tell of the context and not of the value. -/
def Code.Contextual (code : Code) : Prop :=
  code = .tooDeep ∨ code = .missingReference ∨ code = .missingRegistry

/-- The second outcome is the first, unless that is a failure that tells of its context. -/
def Outcome.CarriesOver {α : Type} (r r' : Outcome α) : Prop :=
  (∃ f, r = .error f ∧ f.code.Contextual) ∨ r' = r

theorem Outcome.Tied.carriesOver {α : Type} {r r' : Outcome α}
    (h : Tied (.unless Code.Contextual) r r') : r.CarriesOver r' := by
  cases r with
  | ok a => exact .inr h
  | error f =>
      obtain contextual | same := h
      · exact .inl ⟨f, rfl, contextual⟩
      · exact .inr ((failure?_eq_some_iff r' f).1 same)

namespace Context

structure Within (c d : Context) : Prop where
  levels : c.remaining ≤ d.remaining
  binds : ∀ name target, c.bound? name = some target → d.bound? name = some target

variable {c d child : Context} {f : Failure}

theorem Within.descend (within : c.Within d) (h : c.descend = .ok child) :
    ∃ child', d.descend = .ok child' ∧ child.Within child' := by
  obtain ⟨child', h', left⟩ := exists_descend h within.levels
  have levels := within.levels
  refine ⟨child', h', by omega, fun name target bound => ?_⟩
  rw [bound?_of_descend h] at bound
  rw [bound?_of_descend h']
  exact within.binds name target bound

theorem contextual_of_descend (h : c.descend = .error f) : f.code.Contextual := .inl (code_of_descend h)

theorem contextual_of_resolve {name : String} (h : c.resolve name = .error f) :
    f.code.Contextual := by
  obtain ⟨-, rfl⟩ | ⟨-, -, rfl⟩ | ⟨-, hc⟩ := resolve_eq_error_iff.1 h
  · exact .inr (.inr rfl)
  · exact .inr (.inl rfl)
  · exact contextual_of_descend hc

theorem within_of_limit {limit : Nat} (h : c.maxDepth ≤ limit) :
    c.Within { c with maxDepth := limit } where
  levels := Nat.sub_le_sub_right h c.depth
  binds _ _ bound := bound

theorem within_of_registerAll {r : Registry} (h : c.registry = some r)
    (requests : List (String × Schema)) :
    c.Within { c with registry := some (r.registerAll requests) } where
  levels := Nat.le_refl _
  binds name target bound := by
    rw [bound?_of_registry h] at bound
    exact Registry.get?_registerAll bound requests

end Context

namespace Schema

def OrFree (schema : Schema) : Prop := ∀ first second, ¬schema.Contains (or first second)

theorem orFree_of_parts {schema : Schema} (self : ∀ first second, schema ≠ or first second)
    (outer : ∀ part ∈ schema.outerParts, part.OrFree)
    (inner : ∀ part ∈ schema.innerParts, part.OrFree) : schema.OrFree := by
  intro first second h
  cases h with
  | self => exact self first second rfl
  | outer isPart inside => exact outer _ isPart first second inside
  | inner isPart inside => exact inner _ isPart first second inside

theorem orFree_of_leaf {schema : Schema} (self : ∀ first second, schema ≠ or first second)
    (outer : schema.outerParts = []) (inner : schema.innerParts = []) : schema.OrFree :=
  orFree_of_parts self (by simp [outer]) (by simp [inner])

theorem OrFree.outer {whole part : Schema} (h : whole.OrFree) (isPart : part ∈ whole.outerParts) :
    part.OrFree := fun _ _ inside => h _ _ (.outer isPart inside)

theorem OrFree.inner {whole part : Schema} (h : whole.OrFree) (isPart : part ∈ whole.innerParts) :
    part.OrFree := fun _ _ inside => h _ _ (.inner isPart inside)

structure Enlarged (c d : Context) (schema : Schema) (slot : Slot) : Prop where
  within : c.Within d
  orFree : schema.OrFree
  bound : ∀ name target, c.bound? name = some target → target.OrFree

theorem lockstep_enlarged : Lockstep (.unless Code.Contextual) Enlarged where
  outer enlarged isPart :=
    ⟨enlarged.within, enlarged.orFree.outer isPart, enlarged.bound⟩
  second enlarged _ :=
    ⟨enlarged.within, enlarged.orFree.outer (by simp [outerParts]), enlarged.bound⟩
  alternative _ enlarged _ := enlarged.orFree _ _ (.self _)
  limit _ _ descend := .inl (Context.contextual_of_descend descend)
  inner enlarged _ descend := by
    obtain ⟨child', descend', within⟩ := enlarged.within.descend descend
    refine ⟨child', descend', fun part isPart s => ⟨within, enlarged.orFree.inner isPart, ?_⟩⟩
    rw [Context.bound?_of_descend descend]
    exact enlarged.bound
  unresolved _ resolve := .inl (Context.contextual_of_resolve resolve)
  target enlarged resolve := by
    obtain ⟨bound, descend⟩ := Context.resolve_eq_ok_iff.1 resolve
    obtain ⟨child', descend', within⟩ := enlarged.within.descend descend
    refine ⟨child', ?_, within, enlarged.bound _ _ bound, ?_⟩
    · exact Context.resolve_eq_ok_iff.2 ⟨enlarged.within.binds _ _ bound, descend'⟩
    · rw [Context.bound?_of_descend descend]
      exact enlarged.bound

def CarriesOver (schema : Schema) (c d : Context) : Prop :=
  ∀ slot, (schema.validate c slot).CarriesOver (schema.validate d slot) ∧
    (schema.interpret c slot).CarriesOver (schema.interpret d slot)

/-- Without `or`, a context that leaves more levels and binds more names changes no verdict on a value,
only failures that told of the limit or of a reference. So neither a higher limit nor further
registrations do. -/
theorem carriesOver_to_larger {schema : Schema} {c : Context} (orFree : schema.OrFree)
    (bound : ∀ name target, c.bound? name = some target → target.OrFree) :
    (∀ d, c.Within d → schema.CarriesOver c d) ∧
      (∀ limit, c.maxDepth ≤ limit → schema.CarriesOver c { c with maxDepth := limit }) ∧
      ∀ r requests, c.registry = some r →
        schema.CarriesOver c { c with registry := some (r.registerAll requests) } := by
  have larger : ∀ d, c.Within d → schema.CarriesOver c d := by
    intro d within slot
    have enlarged : Enlarged c d schema slot := ⟨within, orFree, bound⟩
    exact ⟨(lockstep_enlarged.validate enlarged).carriesOver,
      (lockstep_enlarged.interpret enlarged).carriesOver⟩
  refine ⟨larger, fun limit h => larger _ (Context.within_of_limit h), fun r requests h => ?_⟩
  exact larger _ (Context.within_of_registerAll h requests)

theorem carriesOver_to_larger_registered :
    (array (ref "Id")).OrFree ∧
    (∀ name target,
      Context.bound? { registry := some (Registry.empty.registerAll [("Id", boolean)]), maxDepth := 2 }
        name = some target → target.OrFree) ∧
    (array (ref "Id")).validate
        { registry := some ((Registry.empty.registerAll [("Id", boolean)]).registerAll
            [("Id", string), ("Tag", or string boolean)]), maxDepth := 2 }
        (some (.array [.bool true, .string "a"])) =
      .error ⟨⟨[.index 1]⟩, .invalidType, .wrongKind "boolean" .string⟩ := by
  have orFree : (array (ref "Id")).OrFree :=
    orFree_of_parts (by simp) (by simp [outerParts])
      (by simpa [innerParts] using orFree_of_leaf (by simp) rfl rfl)
  have bound : ∀ name target,
      Context.bound? { registry := some (Registry.empty.registerAll [("Id", boolean)]), maxDepth := 2 }
        name = some target → target.OrFree := by
    intro name target h
    have hl : ([("Id", boolean)] : Entries Schema).lookup name = some target := h
    have ht := Entries.mem_of_lookup hl
    obtain ⟨-, rfl⟩ : name = "Id" ∧ target = boolean := by simpa using ht
    exact orFree_of_leaf (by simp) rfl rfl
  refine ⟨orFree, bound, ?_⟩
  have run : (array (ref "Id")).validate
      { registry := some (Registry.empty.registerAll [("Id", boolean)]), maxDepth := 2 }
      (some (.array [.bool true, .string "a"])) =
        .error ⟨⟨[.index 1]⟩, .invalidType, .wrongKind "boolean" .string⟩ := by rfl
  obtain ⟨f, hf, contextual⟩ | same := ((carriesOver_to_larger orFree bound).2.2 _
    [("Id", string), ("Tag", or string boolean)] rfl (some (.array [.bool true, .string "a"]))).1
  · rw [run] at hf
    cases hf
    rcases contextual with h | h | h <;> cases h
  · exact same.trans run

/-- With an `or`, a higher limit does change a verdict: the first schema no longer fails. -/
example :
    ((or (array (array string)) number).validate { maxDepth := 1 }
      (some (.array [.array [.string "a"]]))).failure? =
        some (.wrongKind "number" (some (.array [.array [.string "a"]]))) ∧
    ((or (array (array string)) number).validate { maxDepth := 2 }
      (some (.array [.array [.string "a"]]))).failure? = none := ⟨rfl, rfl⟩

end Schema

end JsonShape
