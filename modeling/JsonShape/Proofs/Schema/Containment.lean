import JsonShape.Proofs.Induction

/-!
What a schema is made of. Its outer parts see the slot that the schema itself is given; its inner parts
see an item or a property of it, one level further in. A reference that no inner part holds is exposed:
it is followed without going into the value.
-/

namespace JsonShape.Schema

/-- The parts that see the same slot. -/
def outerParts : Schema → List Schema
  | and first second => [first, second]
  | or first second => [first, second]
  | optional inner => [inner]
  | nullable inner => [inner]
  | union _ declarations => (Entries.standing declarations).map Prod.snd
  | stored schema => [schema]
  | _ => []

/-- The parts that see the items or the properties of the slot. -/
def innerParts : Schema → List Schema
  | array item => [item]
  | record declarations => (Entries.standing declarations).map Prod.snd
  | _ => []

/-- The second schema stands in the first one, at any depth. Fields and variants whose declaration was
replaced do not. -/
inductive Contains : Schema → Schema → Prop where
  | self (schema : Schema) : Contains schema schema
  | outer {whole part schema : Schema} (isPart : part ∈ whole.outerParts)
      (inside : Contains part schema) : Contains whole schema
  | inner {whole part schema : Schema} (isPart : part ∈ whole.innerParts)
      (inside : Contains part schema) : Contains whole schema

theorem forall_contains {motive : Schema → Prop} {whole : Schema} (self : motive whole)
    (outer : ∀ part ∈ whole.outerParts, ∀ schema, part.Contains schema → motive schema)
    (inner : ∀ part ∈ whole.innerParts, ∀ schema, part.Contains schema → motive schema)
    (schema : Schema) (h : whole.Contains schema) : motive schema := by
  cases h with
  | self => exact self
  | outer isPart inside => exact outer _ isPart schema inside
  | inner isPart inside => exact inner _ isPart schema inside

theorem forall_contains_leaf {motive : Schema → Prop} {whole : Schema} (self : motive whole)
    (outer : whole.outerParts = []) (inner : whole.innerParts = []) (schema : Schema)
    (h : whole.Contains schema) : motive schema :=
  forall_contains self (by simp [outer]) (by simp [inner]) schema h

/-- A reference to `name` that is not below an item or a declared field. -/
inductive Exposes : Schema → String → Prop where
  | ref (name : String) : Exposes (ref name) name
  | outer {whole part : Schema} {name : String} (isPart : part ∈ whole.outerParts)
      (inside : Exposes part name) : Exposes whole name

theorem outerPart_of_variant {discriminant tag : String} {declarations : List (String × Schema)}
    {variant : Schema} (h : (Entries.standing declarations).lookup tag = some variant) :
    variant ∈ (union discriminant declarations).outerParts :=
  List.mem_map_of_mem (Entries.mem_of_lookup h)

theorem innerPart_of_field {declarations : List (String × Schema)} {d : String × Schema}
    (h : d ∈ Entries.standing declarations) : d.2 ∈ (record declarations).innerParts :=
  List.mem_map_of_mem h

theorem references_of_outerPart {whole part : Schema} {name : String}
    (isPart : part ∈ whole.outerParts) (h : name ∈ part.references) : name ∈ whole.references := by
  cases whole with
  | and first second =>
      obtain rfl | rfl : part = first ∨ part = second := by simpa [outerParts] using isPart
      · exact List.mem_append_left _ h
      · exact List.mem_append_right _ h
  | or first second =>
      obtain rfl | rfl : part = first ∨ part = second := by simpa [outerParts] using isPart
      · exact List.mem_append_left _ h
      · exact List.mem_append_right _ h
  | optional inner =>
      obtain rfl : part = inner := by simpa [outerParts] using isPart
      exact h
  | nullable inner =>
      obtain rfl : part = inner := by simpa [outerParts] using isPart
      exact h
  | union discriminant declarations =>
      obtain ⟨d, hd, rfl⟩ := List.mem_map.1 isPart
      rw [references_union]
      exact List.mem_flatMap.2 ⟨d, hd, h⟩
  | stored schema =>
      obtain rfl : part = schema := by simpa [outerParts] using isPart
      exact h
  | _ => simp [outerParts] at isPart

theorem references_of_innerPart {whole part : Schema} {name : String}
    (isPart : part ∈ whole.innerParts) (h : name ∈ part.references) : name ∈ whole.references := by
  cases whole with
  | array item =>
      obtain rfl : part = item := by simpa [innerParts] using isPart
      exact h
  | record declarations =>
      obtain ⟨d, hd, rfl⟩ := List.mem_map.1 isPart
      rw [references_record]
      exact List.mem_flatMap.2 ⟨d, hd, h⟩
  | _ => simp [innerParts] at isPart

theorem references_of_contains {whole schema : Schema} {name : String} (h : whole.Contains schema)
    (hn : name ∈ schema.references) : name ∈ whole.references := by
  induction h with
  | self => exact hn
  | outer isPart _ ih => exact references_of_outerPart isPart (ih hn)
  | inner isPart _ ih => exact references_of_innerPart isPart (ih hn)

theorem mem_references_iff {schema : Schema} {name : String} :
    name ∈ schema.references ↔ schema.Contains (ref name) := by
  refine ⟨fun h => ?_, fun h => references_of_contains h (List.mem_singleton_self name)⟩
  induction schema with
  | array item ih => exact .inner (List.mem_singleton_self item) (ih h)
  | record declarations ih =>
      rw [references_record] at h
      obtain ⟨d, standing, h⟩ := List.mem_flatMap.1 h
      exact .inner (innerPart_of_field standing) (ih d (Entries.mem_of_mem_standing standing) h)
  | and first second ihFirst ihSecond =>
      rcases List.mem_append.1 h with h | h
      · exact .outer (List.mem_cons_self ..) (ihFirst h)
      · exact .outer (List.mem_cons_of_mem _ (List.mem_cons_self ..)) (ihSecond h)
  | or first second ihFirst ihSecond =>
      rcases List.mem_append.1 h with h | h
      · exact .outer (List.mem_cons_self ..) (ihFirst h)
      · exact .outer (List.mem_cons_of_mem _ (List.mem_cons_self ..)) (ihSecond h)
  | optional inner ih => exact .outer (List.mem_singleton_self inner) (ih h)
  | nullable inner ih => exact .outer (List.mem_singleton_self inner) (ih h)
  | union discriminant declarations ih =>
      rw [references_union] at h
      obtain ⟨d, standing, h⟩ := List.mem_flatMap.1 h
      exact .outer (List.mem_map_of_mem standing) (ih d (Entries.mem_of_mem_standing standing) h)
  | ref other =>
      obtain rfl := List.mem_singleton.1 h
      exact .self _
  | stored schema ih => exact .outer (List.mem_singleton_self schema) (ih h)
  | _ => cases h

theorem references_of_exposes {schema : Schema} {name : String} (h : schema.Exposes name) :
    name ∈ schema.references := by
  induction h with
  | ref name => exact List.mem_singleton_self name
  | outer isPart _ ih => exact references_of_outerPart isPart ih

end JsonShape.Schema
