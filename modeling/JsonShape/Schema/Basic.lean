import JsonShape.Value.Basic

/-!
Schemas. `exact`, `oneOf` and `keyOf` hold literals. `and` passes what the first schema returns to the
second; `or` tries the second on the same slot when the first fails. `optional` accepts nothing beside
what its inner schema accepts, and `nullable` accepts null. A `union` picks the variant that a property
of the value names, and a `ref` whatever schema the registry holds under a name.

A record holds its declarations of fields as they were made, and a union those of its variants; a later
declaration of a name replaces the schema of an earlier one and keeps its place, as `Entries.standing`
says.
-/

namespace JsonShape

inductive Schema where
  | string
  | number
  | boolean
  | any
  | exact (expected : Value)
  | oneOf (allowed : List Value)
  | keyOf (keys : List String)
  | array (item : Schema)
  /-- An object, or an array read as one, with a schema for each declared field. -/
  | record (declarations : List (String × Schema))
  | and (first second : Schema)
  | or (first second : Schema)
  | optional (inner : Schema)
  | nullable (inner : Schema)
  | union (discriminant : String) (declarations : List (String × Schema))
  | ref (name : String)
  /-- A schema that was taken from a registry, and has only the value view. -/
  | stored (schema : Schema)

namespace Schema

def defaultDiscriminant : String := "type"

def declaredNames (declarations : List (String × Schema)) : List String :=
  Entries.names (Entries.standing declarations)

def distinctKeys (keys : List String) : List String := keys.eraseDups

mutual

/-- The names that a schema references, in order and with repetitions. Fields and variants whose
declaration was replaced do not count. -/
def references : Schema → List String
  | string | number | boolean | any | exact _ | oneOf _ | keyOf _ => []
  | array item => references item
  | record declarations => (Entries.standing (declaredReferences declarations)).flatMap Prod.snd
  | and first second => references first ++ references second
  | or first second => references first ++ references second
  | optional inner => references inner
  | nullable inner => references inner
  | union _ declarations => (Entries.standing (declaredReferences declarations)).flatMap Prod.snd
  | ref name => [name]
  | stored schema => references schema

def declaredReferences : List (String × Schema) → Entries (List String)
  | [] => []
  | (name, schema) :: rest => (name, references schema) :: declaredReferences rest

end

theorem declaredReferences_eq (declarations : List (String × Schema)) :
    declaredReferences declarations = Entries.mapValues references declarations := by
  induction declarations with
  | nil => rfl
  | cons d rest ih => simp [declaredReferences, ih, Entries.mapValues]

theorem references_record (declarations : List (String × Schema)) :
    references (record declarations) =
      (Entries.standing declarations).flatMap fun d => references d.2 := by
  rw [references, declaredReferences_eq, Entries.standing_mapValues]
  simp [Entries.mapValues, List.flatMap_map]

theorem references_union (discriminant : String) (declarations : List (String × Schema)) :
    references (union discriminant declarations) =
      (Entries.standing declarations).flatMap fun d => references d.2 := by
  rw [references, declaredReferences_eq, Entries.standing_mapValues]
  simp [Entries.mapValues, List.flatMap_map]

end Schema

end JsonShape
