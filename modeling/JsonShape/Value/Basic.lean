import JsonShape.Entries
import JsonShape.Number.Basic

/-!
JSON values, and slots: the places of a document, which hold a value or nothing. Members of an object
are kept in increasing order of their names; `Value.WellFormed` says so at every depth.
-/

namespace JsonShape

inductive Value where
  | null
  | bool (b : Bool)
  | number (n : Number)
  | string (s : String)
  | array (items : List Value)
  | object (members : List (String × Value))

/-- A value, or nothing where a value could stand. -/
abbrev Slot := Option Value

inductive Kind where
  | undefined
  | null
  | boolean
  | number
  | string
  | array
  | object
deriving DecidableEq

namespace Kind

def name : Kind → String
  | undefined => "undefined"
  | null => "null"
  | boolean => "boolean"
  | number => "number"
  | string => "string"
  | array => "array"
  | object => "object"

def ofValue : Value → Kind
  | .null => null
  | .bool _ => boolean
  | .number _ => number
  | .string _ => string
  | .array _ => array
  | .object _ => object

def ofSlot : Slot → Kind
  | none => undefined
  | some v => ofValue v

end Kind

namespace Value

def indexed (items : List Value) : Entries Value :=
  Entries.sorted (items.zipIdx.map fun (v, i) => (toString i, v))

def properties? : Value → Option (Entries Value)
  | object members => some members
  | array items => some (indexed items)
  | _ => none

mutual

/-- Every object lists its members in strictly increasing order of their names. -/
def WellFormed : Value → Prop
  | array items => WellFormedItems items
  | object members => Entries.Increasing members ∧ WellFormedMembers members
  | _ => True

def WellFormedItems : List Value → Prop
  | [] => True
  | v :: items => WellFormed v ∧ WellFormedItems items

def WellFormedMembers : List (String × Value) → Prop
  | [] => True
  | (_, v) :: members => WellFormed v ∧ WellFormedMembers members

end

end Value

end JsonShape
