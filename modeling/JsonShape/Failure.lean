import JsonShape.Path
import JsonShape.Value.Printer

/-!
Failures of validation: where, of which code, and why. The cause holds the data of the message, and
`Cause.message` words it.
-/

namespace JsonShape

inductive Code where
  | invalidType
  | invalidValue
  | invalidDiscriminant
  | tooDeep
  | missingReference
  | missingRegistry
deriving DecidableEq

namespace Code

def name : Code → String
  | invalidType => "invalid_type"
  | invalidValue => "invalid_value"
  | invalidDiscriminant => "invalid_discriminant"
  | tooDeep => "too_deep"
  | missingReference => "missing_reference"
  | missingRegistry => "missing_registry"

def all : List Code :=
  [invalidType, invalidValue, invalidDiscriminant, tooDeep, missingReference, missingRegistry]

def ofName? (name : String) : Option Code := all.find? fun code => code.name = name

@[simp] theorem ofName?_name (code : Code) : ofName? code.name = some code := by
  cases code <;> decide

end Code

/-- Why a validation fails. `unboundReference` is a reference to a name that the registry does not hold,
`noRegistry` a reference met without a registry, and `stated` a cause that is only known by its message. -/
inductive Cause where
  | wrongKind (expected : String) (got : Kind)
  | notExactly (expected : Value) (got : Slot)
  | notAmong (allowed : List Value) (got : Slot)
  | unknownKey (key : String) (known : List String)
  | tooDeep (limit : Nat)
  | unboundReference (name : String)
  | noRegistry (name : String)
  | stated (message : String)

namespace Cause

def message : Cause → String
  | wrongKind expected got => "expected " ++ expected ++ ", got " ++ got.name
  | notExactly expected got => "expected " ++ expected.text ++ ", got " ++ Slot.text got
  | notAmong allowed got =>
    "unexpected value " ++ Slot.text got ++ ", expected one of " ++
      ", ".intercalate (allowed.map Value.text)
  | unknownKey key known =>
    "unknown key " ++ Quoted.write key ++ ", expected one of " ++
      ", ".intercalate (known.map Quoted.write)
  | tooDeep limit => "too deeply nested (max depth " ++ toString limit ++ ")"
  | unboundReference name => "schema '" ++ name ++ "' not found in registry"
  | noRegistry name => "reference to '" ++ name ++ "' cannot be validated without a registry"
  | stated message => message

end Cause

structure Failure where
  path : Path
  code : Code
  cause : Cause

namespace Failure

def atRoot (code : Code) (cause : Cause) : Failure := ⟨.root, code, cause⟩

def wrongKind (expected : String) (got : Slot) : Failure :=
  atRoot .invalidType (.wrongKind expected (.ofSlot got))

def tooDeep (limit : Nat) : Failure := atRoot .tooDeep (.tooDeep limit)

def message (f : Failure) : String := f.cause.message

def within (f : Failure) (s : Segment) : Failure := { f with path := f.path.within s }

def withCode (f : Failure) (code : Code) : Failure := { f with code }

def text (f : Failure) : String :=
  (if f.path.isRoot then "(root)" else f.path.text) ++ ": " ++ f.message

@[simp] theorem path_within (f : Failure) (s : Segment) : (f.within s).path = f.path.within s := rfl

@[simp] theorem code_within (f : Failure) (s : Segment) : (f.within s).code = f.code := rfl

@[simp] theorem cause_within (f : Failure) (s : Segment) : (f.within s).cause = f.cause := rfl

@[simp] theorem message_within (f : Failure) (s : Segment) : (f.within s).message = f.message := rfl

@[simp] theorem message_withCode (f : Failure) (code : Code) :
    (f.withCode code).message = f.message := rfl

end Failure

abbrev Outcome (α : Type) := Except Failure α

namespace Outcome

variable {α : Type}

def under (s : Segment) : Outcome α → Outcome α
  | .ok a => .ok a
  | .error f => .error (f.within s)

def withCode (code : Code) : Outcome α → Outcome α
  | .ok a => .ok a
  | .error f => .error (f.withCode code)

@[simp] theorem under_eq_ok_iff (s : Segment) (r : Outcome α) (a : α) :
    under s r = .ok a ↔ r = .ok a := by
  cases r <;> simp [under]

@[simp] theorem under_eq_error_iff (s : Segment) (r : Outcome α) (f : Failure) :
    under s r = .error f ↔ ∃ g, r = .error g ∧ f = g.within s := by
  cases r <;> simp [under, eq_comm]

end Outcome

end JsonShape
