import JsonShape.Failure
import JsonShape.Schema.Basic
import JsonShape.Value.Equality

/-!
The checks of a single slot that both views share. Each returns what it found, or a failure at the root.
-/

namespace JsonShape.Checks

def string : Slot → Outcome String
  | some (.string s) => .ok s
  | slot => .error (.wrongKind "string" slot)

def number : Slot → Outcome Number
  | some (.number n) => .ok n
  | slot => .error (.wrongKind "number" slot)

def boolean : Slot → Outcome Bool
  | some (.bool b) => .ok b
  | slot => .error (.wrongKind "boolean" slot)

def items : Slot → Outcome (List Value)
  | some (.array items) => .ok items
  | slot => .error (.wrongKind "array" slot)

def properties (slot : Slot) : Outcome (Entries Value) :=
  match slot.bind Value.properties? with
  | some own => .ok own
  | none => .error (.wrongKind "object" slot)

def exactly (expected : Value) (slot : Slot) : Outcome Value :=
  match slot with
  | some v =>
    if v.same expected then .ok v
    else .error (.atRoot .invalidValue (.notExactly expected slot))
  | none => .error (.atRoot .invalidValue (.notExactly expected slot))

def among (allowed : List Value) (slot : Slot) : Outcome Value :=
  match slot with
  | some v =>
    if allowed.any v.same then .ok v
    else .error (.atRoot .invalidValue (.notAmong allowed slot))
  | none => .error (.atRoot .invalidValue (.notAmong allowed slot))

def key (keys : List String) (slot : Slot) : Outcome String :=
  match string slot with
  | .error f => .error f
  | .ok s =>
    if s ∈ keys then .ok s
    else .error (.atRoot .invalidValue (.unknownKey s (Schema.distinctKeys keys)))

/-- The slot that holds the tag of a union: a property of an object. An array has no tag. -/
def tag (discriminant : String) : Slot → Outcome Slot
  | some (.object members) => .ok (members.lookup discriminant)
  | some (.array _) => .ok none
  | slot => .error (.wrongKind "object" slot)

def badTag (discriminant : String) (cause : Cause) : Failure :=
  ⟨Path.root.within (.field discriminant), .invalidDiscriminant, cause⟩

end JsonShape.Checks
