import JsonShape.Validation.Value

/-!
The typed view: a schema takes a slot and returns a tree that shows which parts of the schema accepted
it. `Typed.erase` forgets all but the JSON value. Records, unions, references and stored schemas have
only the value view, and show its result as a value.
-/

namespace JsonShape

inductive Typed where
  | string (s : String)
  | number (n : Number)
  | boolean (b : Bool)
  | value (v : Value)
  | array (items : List Typed)
  | none
  | some (t : Typed)
  | left (t : Typed)
  | right (t : Typed)

namespace Typed

mutual

def erase : Typed → Value
  | string s => .string s
  | number n => .number n
  | boolean b => .bool b
  | value v => v
  | array items => .array (eraseItems items)
  | none => .null
  | some t => erase t
  | left t => erase t
  | right t => erase t

def eraseItems : List Typed → List Value
  | [] => []
  | t :: items => erase t :: eraseItems items

end

theorem eraseItems_eq_map (items : List Typed) : eraseItems items = items.map erase := by
  induction items with
  | nil => rfl
  | cons t items ih => simp [eraseItems, ih]

end Typed

namespace Schema

abbrev TypedRun := Schema → Slot → Outcome Typed

def interpretItems (child : TypedRun) (item : Schema) (items : List Value) :
    Outcome (List Typed) :=
  items.zipIdx.mapM fun (v, i) => Outcome.under (.index i) (child item (some v))

/-- One layer of the typed view. `below` is the value view one level further in, and `typedBelow` the
typed view there. -/
def interpretLayer (registry : Option Registry) (below : Outcome Run)
    (typedBelow : Outcome TypedRun) : Schema → Slot → Outcome Typed
  | string, slot => (Checks.string slot).map .string
  | number, slot => (Checks.number slot).map .number
  | boolean, slot => (Checks.boolean slot).map .boolean
  | any, slot => .ok (.value (slot.getD .null))
  | exact expected, slot => (Checks.exactly expected slot).map .value
  | oneOf allowed, slot => (Checks.among allowed slot).map .value
  | keyOf keys, slot => (Checks.key keys slot).map .string
  | array item, slot =>
    match Checks.items slot with
    | .error f => .error f
    | .ok [] => .ok (.array [])
    | .ok items =>
      match typedBelow with
      | .error f => .error f
      | .ok child => (interpretItems child item items).map .array
  | and first second, slot =>
    match validateLayer registry below first slot with
    | .error f => .error f
    | .ok narrowed => interpretLayer registry below typedBelow second narrowed
  | or first second, slot =>
    match interpretLayer registry below typedBelow first slot with
    | .error _ => (interpretLayer registry below typedBelow second slot).map .right
    | .ok t => .ok (.left t)
  | optional inner, slot =>
    match slot with
    | none => .ok .none
    | some v => (interpretLayer registry below typedBelow inner (some v)).map .some
  | nullable inner, slot =>
    match slot with
    | some .null => .ok .none
    | slot => (interpretLayer registry below typedBelow inner slot).map .some
  | schema, slot =>
    (validateLayer registry below schema slot).map fun r => .value (r.getD .null)

def interpretWithin (registry : Option Registry) (limit : Nat) :
    (remaining : Nat) → Schema → Slot → Outcome Typed
  | 0, schema, slot =>
    interpretLayer registry (.error (.tooDeep limit)) (.error (.tooDeep limit)) schema slot
  | n + 1, schema, slot =>
    interpretLayer registry (.ok (validateWithin registry limit n))
      (.ok (interpretWithin registry limit n)) schema slot

def interpret (schema : Schema) (c : Context) (slot : Slot) : Outcome Typed :=
  interpretWithin c.registry c.maxDepth c.remaining schema slot

theorem interpret_eq (schema : Schema) (c : Context) (slot : Slot) :
    schema.interpret c slot =
      interpretLayer c.registry (c.descend.map fun child schema slot => schema.validate child slot)
        (c.descend.map fun child schema slot => schema.interpret child slot) schema slot := by
  rcases Nat.eq_zero_or_pos c.remaining with h | h
  · rw [Context.descend_of_remaining_eq_zero h, interpret, h]
    rfl
  · rw [Context.descend_of_remaining_pos h, interpret]
    obtain ⟨n, hn⟩ := Nat.exists_eq_add_of_lt h
    have hc : ({ c with depth := c.depth + 1 } : Context).remaining = n := by
      unfold Context.remaining at hn ⊢
      dsimp only
      omega
    have hn : c.remaining = n + 1 := by omega
    rw [hn]
    simp only [Except.map, validate, interpret, hc]
    rfl

end Schema

end JsonShape
