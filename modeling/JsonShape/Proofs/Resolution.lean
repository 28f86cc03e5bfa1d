import JsonShape.Proofs.Rules
import JsonShape.Proofs.Schema.Containment

/-!
What references stand for. A context without a registry binds nothing; a reference resolves to the
schema that its name is bound to, with the context one level further in. The names that a schema reaches
are those it references, those that the schemas bound to these reference, and so on. What a name is bound
to stays when more names are registered.
-/

namespace JsonShape

namespace Context

def bound? (c : Context) (name : String) : Option Schema := c.registry.bind fun r => r.get? name

/-- What a reference stands for: a schema, and the context in which it runs. -/
def resolve (c : Context) (name : String) : Outcome (Schema × Context) :=
  match c.registry with
  | none => .error (.atRoot .missingRegistry (.noRegistry name))
  | some r =>
    match r.get? name with
    | none => .error (.atRoot .missingReference (.unboundReference name))
    | some target => c.descend.map fun child => (target, child)

variable {c child : Context} {name : String} {target : Schema} {f : Failure}

theorem bound?_of_registry {r : Registry} (h : c.registry = some r) (name : String) :
    c.bound? name = r.get? name := by
  rw [bound?, h]
  rfl

theorem registry_of_descend (h : c.descend = .ok child) : child.registry = c.registry := by
  obtain ⟨-, rfl⟩ := (descend_eq_ok_iff c child).1 h
  rfl

theorem code_of_descend (h : c.descend = .error f) : f.code = .tooDeep := by
  obtain ⟨-, rfl⟩ := (descend_eq_error_iff c f).1 h
  rfl

theorem registry_of_descends {d child' : Context} (registry : d.registry = c.registry)
    (h : c.descend = .ok child) (h' : d.descend = .ok child') : child'.registry = child.registry := by
  rw [registry_of_descend h', registry_of_descend h, registry]

theorem bound?_congr {d : Context} (h : d.registry = c.registry) : d.bound? = c.bound? := by
  funext name
  rw [bound?, bound?, h]

theorem bound?_of_descend (h : c.descend = .ok child) : child.bound? = c.bound? :=
  bound?_congr (registry_of_descend h)

theorem exists_descend {d : Context} (h : c.descend = .ok child) (levels : c.remaining ≤ d.remaining) :
    ∃ child', d.descend = .ok child' ∧ child.remaining + d.remaining = child'.remaining + c.remaining := by
  have left := remaining_of_descend h
  have h' := descend_of_remaining_pos (c := d) (by omega)
  have left' := remaining_of_descend h'
  exact ⟨_, h', by omega⟩

theorem resolve_eq_ok_iff :
    c.resolve name = .ok (target, child) ↔ c.bound? name = some target ∧ c.descend = .ok child := by
  unfold resolve bound?
  cases c.registry with
  | none => simp
  | some r =>
      cases h : r.get? name with
      | none => simp [h]
      | some t => cases c.descend <;> simp [h, Except.map]

theorem resolve_eq_error_iff :
    c.resolve name = .error f ↔
      (c.registry = none ∧ f = .atRoot .missingRegistry (.noRegistry name)) ∨
      (c.registry ≠ none ∧ c.bound? name = none ∧
        f = .atRoot .missingReference (.unboundReference name)) ∨
      ((c.bound? name).isSome ∧ c.descend = .error f) := by
  unfold resolve bound?
  cases c.registry with
  | none => simp [eq_comm]
  | some r =>
      cases h : r.get? name with
      | none => simp [h, eq_comm]
      | some t => simp [h]

theorem resolve_of_bound (h : c.bound? name = some target) :
    c.resolve name = c.descend.map fun child => (target, child) := by
  unfold bound? at h
  unfold resolve
  cases hr : c.registry with
  | none => simp [hr] at h
  | some r =>
      have hg : r.get? name = some target := by simpa [hr] using h
      simp only [hg]

theorem resolve_of_unbound {d : Context} (registry : d.registry = c.registry)
    (h : c.bound? name = none) : d.resolve name = c.resolve name := by
  unfold bound? at h
  unfold resolve
  rw [registry]
  cases hr : c.registry with
  | none => rfl
  | some r =>
      have hg : r.get? name = none := by simpa [hr] using h
      simp only [hg]

theorem descend_with_registry (c : Context) (registry : Option Registry) :
    ({ c with registry } : Context).descend = c.descend.map fun child => { child with registry } := by
  unfold descend
  dsimp only
  split <;> rfl

theorem resolve_with_registry {r s : Registry} (h : c.registry = some r)
    (agree : s.get? name = r.get? name) :
    ({ c with registry := some s } : Context).resolve name =
      (c.resolve name).map fun e => (e.1, { e.2 with registry := some s }) := by
  unfold resolve
  rw [h]
  dsimp only
  rw [descend_with_registry, ← agree]
  cases s.get? name with
  | none => rfl
  | some target => cases c.descend <;> rfl

end Context

theorem Schema.validate_ref_eq (c : Context) (slot : Slot) (name : String) :
    (ref name).validate c slot =
      match c.resolve name with
      | .error f => .error f
      | .ok (target, child) => target.validate child slot := by
  rw [validate_ref, Context.resolve]
  cases c.registry with
  | none => rfl
  | some r =>
      dsimp only
      cases r.get? name with
      | none => rfl
      | some target => cases c.descend <;> rfl

namespace Registry

/-- The registry after a request to register; a request that is refused changes nothing. -/
def request (r : Registry) (name : String) (schema : Schema) : Registry :=
  match r.register name schema with
  | .ok s => s
  | .error _ => r

def registerAll (r : Registry) (requests : List (String × Schema)) : Registry :=
  requests.foldl (fun r e => r.request e.1 e.2) r

variable {r : Registry} {name : String} {schema : Schema}

theorem get?_request (r : Registry) (name key : String) (schema : Schema) :
    (r.request name schema).get? key = (r.get? key).or (if key = name then some schema else none) := by
  unfold request
  split
  next s granted =>
    rw [get?_of_register granted]
    by_cases h : key = name
    · rw [if_pos h, h, get?_eq_none_of_register granted]
      simp
    · simp [h]
  next e refused =>
    obtain ⟨bound, -⟩ := (register_eq_error_iff r name schema e).1 refused
    obtain ⟨old, here⟩ := (Entries.mem_names_iff _ _).1 bound
    by_cases h : key = name
    · have here : r.get? key = some old := by rwa [h]
      simp [here]
    · simp [h]

theorem get?_registerAll_eq (r : Registry) (requests : List (String × Schema)) (key : String) :
    (r.registerAll requests).get? key = (r.get? key).or (requests.lookup key) := by
  induction requests generalizing r with
  | nil => simp [registerAll]
  | cons e requests ih =>
      have step : r.registerAll (e :: requests) = (r.request e.1 e.2).registerAll requests := rfl
      rw [step, ih, get?_request, Option.or_assoc, Entries.lookup_cons]
      by_cases h : key = e.1 <;> simp [h]

theorem get?_registerAll (h : r.get? name = some schema) (requests : List (String × Schema)) :
    (r.registerAll requests).get? name = some schema := by
  rw [get?_registerAll_eq, h]
  rfl

theorem mem_entries_iff (r : Registry) (name : String) (schema : Schema) :
    (name, schema) ∈ r.entries ↔ r.get? name = some schema :=
  ⟨Entries.lookup_of_mem r.distinct, Entries.mem_of_lookup⟩

theorem mem_sortedNames (l : List String) (name : String) : name ∈ sortedNames l ↔ name ∈ l := by
  rw [sortedNames, Entries.mem_names_sorted]
  simp [Entries.names]

theorem mem_unresolved_iff (r : Registry) (name : String) :
    name ∈ r.unresolved ↔
      (∃ holder target, r.get? holder = some target ∧ name ∈ target.references) ∧
        r.get? name = none := by
  rw [unresolved, mem_sortedNames, get?_eq_none_iff]
  simp [mem_entries_iff]

end Registry

/-- The names that a schema reaches by following references: the least set with its own references and
with those of every schema bound to a name of the set. -/
inductive Reaches (bound? : String → Option Schema) (schema : Schema) : String → Prop where
  | reference {name : String} (h : name ∈ schema.references) : Reaches bound? schema name
  | through {name next : String} {target : Schema} (reached : Reaches bound? schema name)
      (bound : bound? name = some target) (h : next ∈ target.references) : Reaches bound? schema next

def Referenced (bound? : String → Option Schema) (schema : Schema) (name : String) : Prop :=
  name ∈ schema.references ∨ ∃ holder target, bound? holder = some target ∧ name ∈ target.references

namespace Reaches

variable {bound? : String → Option Schema} {whole part target : Schema} {name next : String}

theorem least (names : String → Prop) (references : ∀ n ∈ part.references, names n)
    (closed : ∀ n target, names n → bound? n = some target → ∀ next ∈ target.references, names next)
    (h : Reaches bound? part name) : names name := by
  induction h with
  | reference h => exact references _ h
  | through _ bound h ih => exact closed _ _ ih bound _ h

theorem referenced (h : Reaches bound? part name) : Referenced bound? part name := by
  cases h with
  | reference h => exact .inl h
  | through _ bound h => exact .inr ⟨_, _, bound, h⟩

theorem of_references (sub : ∀ n ∈ part.references, Reaches bound? whole n)
    (h : Reaches bound? part name) : Reaches bound? whole name :=
  h.least _ sub fun _ _ reached bound _ hn => .through reached bound hn

theorem of_outerPart (isPart : part ∈ whole.outerParts) (h : Reaches bound? part name) :
    Reaches bound? whole name :=
  h.of_references fun _ hn => .reference (Schema.references_of_outerPart isPart hn)

theorem of_innerPart (isPart : part ∈ whole.innerParts) (h : Reaches bound? part name) :
    Reaches bound? whole name :=
  h.of_references fun _ hn => .reference (Schema.references_of_innerPart isPart hn)

theorem ref (name : String) : Reaches bound? (.ref name) name := .reference (List.mem_singleton_self name)

theorem of_target (bound : bound? name = some target) (h : Reaches bound? target next) :
    Reaches bound? (.ref name) next :=
  h.of_references fun _ hn => .through (ref name) bound hn

end Reaches

end JsonShape
