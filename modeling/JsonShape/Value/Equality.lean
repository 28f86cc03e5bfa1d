import JsonShape.Value.Basic

/-!
Equality of literals. Numbers compare as `Number.same` says, arrays item by item, and two objects are
equal when they have equally many members and each member of the first has an equal one in the second.
-/

namespace JsonShape.Value

mutual

def same : Value → Value → Bool
  | null, null => true
  | bool a, bool b => a == b
  | number a, number b => a.same b
  | string a, string b => a == b
  | array a, array b => sameItems a b
  | object a, object b => a.length == b.length && sameMembers a b
  | _, _ => false

def sameItems : List Value → List Value → Bool
  | [], [] => true
  | a :: as, b :: bs => same a b && sameItems as bs
  | _, _ => false

def sameMembers : List (String × Value) → List (String × Value) → Bool
  | [], _ => true
  | (name, a) :: rest, members =>
    (match members.lookup name with
    | some b => same a b
    | none => false) && sameMembers rest members

end

end JsonShape.Value
