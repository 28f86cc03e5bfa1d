import JsonShape.Context
import JsonShape.Validation.Checks

/-!
The value view: a schema takes a slot and returns what it makes of it, or the first failure.

`validateLayer` says what a schema does on one level of nesting, given `below`, the validation one level
further in, which is itself a failure at the limit. Items, declared fields and the targets of references
are one level further in; the parts of `and`, `or`, `optional`, `nullable` and `union` are not.
`validateWithin` stacks as many layers as the limit leaves, and `validate_eq` is the rule by which the
validation in a context unfolds.
-/

namespace JsonShape

namespace Schema

abbrev Run := Schema → Slot → Outcome Slot

def validateItems (child : Run) (item : Schema) (items : List Value) : Outcome (List Value) :=
  items.zipIdx.mapM fun (v, i) =>
    Outcome.under (.index i) ((child item (some v)).map fun r => r.getD .null)

def validateFields (child : Run) (own : Entries Value) (fields : Entries Schema) :
    Outcome (List (String × Slot)) :=
  fields.mapM fun (name, schema) =>
    Outcome.under (.field name) ((child schema (own.lookup name)).map fun r => (name, r))

/-- The properties `own` with the results of the fields written over them; an absent result writes
nothing. -/
def merge (own : Entries Value) (results : List (String × Slot)) : Entries Value :=
  results.foldl (fun merged (name, r) =>
    match r with
    | some v => Entries.insert merged name v
    | none => merged) own

mutual

def validateLayer (registry : Option Registry) (below : Outcome Run) : Schema → Slot → Outcome Slot
  | string, slot => (Checks.string slot).map fun s => some (.string s)
  | number, slot => (Checks.number slot).map fun n => some (.number n)
  | boolean, slot => (Checks.boolean slot).map fun b => some (.bool b)
  | any, slot => .ok slot
  | exact expected, slot => (Checks.exactly expected slot).map some
  | oneOf allowed, slot => (Checks.among allowed slot).map some
  | keyOf keys, slot => (Checks.key keys slot).map fun s => some (.string s)
  | array item, slot =>
    match Checks.items slot with
    | .error f => .error f
    | .ok [] => .ok (some (.array []))
    | .ok items =>
      match below with
      | .error f => .error f
      | .ok child => (validateItems child item items).map fun l => some (.array l)
  | record declarations, slot =>
    match Checks.properties slot with
    | .error f => .error f
    | .ok own =>
      if declarations.isEmpty then .ok slot
      else
        match below with
        | .error f => .error f
        | .ok child =>
          (validateFields child own (Entries.standing declarations)).map fun results =>
            some (.object (merge own results))
  | and first second, slot =>
    match validateLayer registry below first slot with
    | .error f => .error f
    | .ok narrowed => validateLayer registry below second narrowed
  | or first second, slot =>
    match validateLayer registry below first slot with
    | .error _ => validateLayer registry below second slot
    | .ok r => .ok r
  | optional inner, slot =>
    match slot with
    | none => .ok none
    | some v => validateLayer registry below inner (some v)
  | nullable inner, slot =>
    match slot with
    | some .null => .ok (some .null)
    | slot => validateLayer registry below inner slot
  | union discriminant declarations, slot =>
    match Checks.tag discriminant slot with
    | .error f => .error f
    | .ok (some (.string tag)) =>
      match (Entries.standing (variantRuns registry below declarations)).lookup tag with
      | some run => run slot
      | none =>
        .error (Checks.badTag discriminant (.unknownKey tag (declaredNames declarations)))
    | .ok other =>
      .error (Checks.badTag discriminant (.wrongKind "string" (.ofSlot other)))
  | ref name, slot =>
    match registry with
    | none => .error (.atRoot .missingRegistry (.noRegistry name))
    | some r =>
      match r.get? name with
      | none => .error (.atRoot .missingReference (.unboundReference name))
      | some target =>
        match below with
        | .error f => .error f
        | .ok child => child target slot
  | stored schema, slot => validateLayer registry below schema slot

def variantRuns (registry : Option Registry) (below : Outcome Run) :
    List (String × Schema) → Entries (Slot → Outcome Slot)
  | [] => []
  | (tag, schema) :: rest =>
    (tag, fun slot => validateLayer registry below schema slot) :: variantRuns registry below rest

end

theorem variantRuns_eq (registry : Option Registry) (below : Outcome Run)
    (declarations : List (String × Schema)) :
    variantRuns registry below declarations =
      Entries.mapValues (validateLayer registry below) declarations := by
  induction declarations with
  | nil => rfl
  | cons d rest ih => simp [variantRuns, ih, Entries.mapValues]

def validateWithin (registry : Option Registry) (limit : Nat) :
    (remaining : Nat) → Schema → Slot → Outcome Slot
  | 0, schema, slot => validateLayer registry (.error (.tooDeep limit)) schema slot
  | n + 1, schema, slot =>
    validateLayer registry (.ok (validateWithin registry limit n)) schema slot

def validate (schema : Schema) (c : Context) (slot : Slot) : Outcome Slot :=
  validateWithin c.registry c.maxDepth c.remaining schema slot

theorem validate_eq (schema : Schema) (c : Context) (slot : Slot) :
    schema.validate c slot =
      validateLayer c.registry (c.descend.map fun child schema slot => schema.validate child slot)
        schema slot := by
  rcases Nat.eq_zero_or_pos c.remaining with h | h
  · rw [Context.descend_of_remaining_eq_zero h, validate, h]
    rfl
  · rw [Context.descend_of_remaining_pos h, validate]
    obtain ⟨n, hn⟩ := Nat.exists_eq_add_of_lt h
    have hc : ({ c with depth := c.depth + 1 } : Context).remaining = n := by
      unfold Context.remaining at hn ⊢
      dsimp only
      omega
    have hn : c.remaining = n + 1 := by omega
    rw [hn]
    simp only [Except.map, validate, hc]
    rfl

def validateValue (schema : Schema) (v : Value) : Outcome Value :=
  (schema.validate {} (some v)).map fun r => r.getD .null

end Schema

end JsonShape
