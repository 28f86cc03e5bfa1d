import JsonShape.Validation.Typed

/-!
Reports: both views of a slot and the references of the schema, side by side.
-/

namespace JsonShape

structure Report where
  typed : Outcome Typed
  value : Outcome Slot
  references : List String

/-- Both views of a slot, `descents` levels inside the context. -/
def Schema.report (schema : Schema) (c : Context) (descents : Nat) (slot : Slot) : Outcome Report :=
  (c.descendBy descents).map fun c =>
    { typed := schema.interpret c slot
      value := schema.validate c slot
      references := schema.references }

end JsonShape
