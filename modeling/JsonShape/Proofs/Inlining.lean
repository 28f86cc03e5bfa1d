import JsonShape.Proofs.Enlargement
import JsonShape.Proofs.Fields

/-!
Inlining. At any places of a schema, a reference can give way to the schema that its name is bound to. Each
inlined reference saves the level that it took, so from there on the two runs have different numbers of levels
left; but where no schema has an `or`, more levels change nothing unless the limit was told of. So references
are transparent up to the limit.
-/

namespace JsonShape

namespace Context

structure Roomier (c d : Context) : Prop where
  registry : d.registry = c.registry
  levels : c.remaining ≤ d.remaining

variable {c d child : Context}

theorem Roomier.refl (c : Context) : c.Roomier c := ⟨rfl, Nat.le_refl _⟩

theorem Roomier.within (roomier : c.Roomier d) : c.Within d :=
  ⟨roomier.levels, fun _ _ bound => bound?_congr roomier.registry ▸ bound⟩

theorem Roomier.descend (roomier : c.Roomier d) (h : c.descend = .ok child) :
    ∃ child', d.descend = .ok child' ∧ child.Roomier child' := by
  obtain ⟨child', h', within⟩ := roomier.within.descend h
  exact ⟨child', h', registry_of_descends roomier.registry h h', within.levels⟩

theorem Roomier.of_descend (roomier : c.Roomier d) (h : c.descend = .ok child) : child.Roomier d where
  registry := by rw [registry_of_descend h, roomier.registry]
  levels := by
    have levels := roomier.levels
    have left := remaining_of_descend h
    omega

end Context

abbrev Tie.unlessTooDeep : Tie := .unless (· = .tooDeep)

namespace Schema

open Outcome (Tied tied_rfl tied_error tied_mapM)

structure Widened (c d : Context) (schema : Schema) (slot : Slot) : Prop where
  enlarged : Enlarged c d schema slot
  registry : d.registry = c.registry

theorem lockstep_widened : Lockstep .unlessTooDeep Widened where
  outer widened isPart := ⟨lockstep_enlarged.outer widened.enlarged isPart, widened.registry⟩
  second widened run := ⟨lockstep_enlarged.second widened.enlarged run, widened.registry⟩
  alternative _ widened _ := widened.enlarged.orFree _ _ (.self _)
  limit _ _ descend := .inl (Context.code_of_descend descend)
  inner widened properties descend := by
    obtain ⟨child', descend', parts⟩ := lockstep_enlarged.inner widened.enlarged properties descend
    have registry := Context.registry_of_descends widened.registry descend descend'
    exact ⟨child', descend', fun part isPart s => ⟨parts part isPart s, registry⟩⟩
  unresolved {c d name slot f} widened resolve := by
    cases bound : c.bound? name with
    | none =>
        rw [Context.resolve_of_unbound widened.registry bound, resolve]
        exact .inr rfl
    | some target =>
        rw [Context.resolve_of_bound bound, Outcome.map_eq_error_iff] at resolve
        exact .inl (Context.code_of_descend resolve)
  target widened resolve := by
    obtain ⟨child', resolve', target⟩ := lockstep_enlarged.target widened.enlarged resolve
    have descend := (Context.resolve_eq_ok_iff.1 resolve).2
    have descend' := (Context.resolve_eq_ok_iff.1 resolve').2
    exact ⟨child', resolve', target, Context.registry_of_descends widened.registry descend descend'⟩

/-- A step from a schema into one of its parts. Fields and variants are told by their names. -/
inductive Turn where
  | item
  | field (name : String)
  | first
  | second
  | inner
  | variant (tag : String)
deriving DecidableEq

abbrev Place := List Turn

/-- The places behind a step, as they are seen from there. -/
def behind (chosen : Place → Bool) (turn : Turn) : Place → Bool := fun place => chosen (turn :: place)

mutual

/-- The schema with what the names are bound to in the place of the references at the chosen places. What
comes in is taken as it is; a reference to a name that is not bound stays. -/
def inlineAt (bound? : String → Option Schema) (chosen : Place → Bool) : Schema → Schema
  | array item => array (inlineAt bound? (behind chosen .item) item)
  | record declarations =>
    record (inlineDeclared bound? (fun name => behind chosen (.field name)) declarations)
  | and first second =>
    and (inlineAt bound? (behind chosen .first) first) (inlineAt bound? (behind chosen .second) second)
  | or first second =>
    or (inlineAt bound? (behind chosen .first) first) (inlineAt bound? (behind chosen .second) second)
  | optional inner => optional (inlineAt bound? (behind chosen .inner) inner)
  | nullable inner => nullable (inlineAt bound? (behind chosen .inner) inner)
  | union discriminant declarations =>
    union discriminant (inlineDeclared bound? (fun tag => behind chosen (.variant tag)) declarations)
  | ref name => if chosen [] then (bound? name).getD (ref name) else ref name
  | stored schema => stored (inlineAt bound? (behind chosen .inner) schema)
  | schema => schema

def inlineDeclared (bound? : String → Option Schema) (chosen : String → Place → Bool) :
    List (String × Schema) → List (String × Schema)
  | [] => []
  | (name, schema) :: rest =>
    (name, inlineAt bound? (chosen name) schema) :: inlineDeclared bound? chosen rest

end

section Inlining

variable {bound? : String → Option Schema}

theorem inlineDeclared_eq (chosen : String → Place → Bool) (declarations : List (String × Schema)) :
    inlineDeclared bound? chosen declarations =
      declarations.map fun d => (d.1, d.2.inlineAt bound? (chosen d.1)) := by
  induction declarations with
  | nil => rfl
  | cons d rest ih => rw [inlineDeclared, ih, List.map_cons]

theorem isEmpty_inlineDeclared (chosen : String → Place → Bool) (declarations : List (String × Schema)) :
    (inlineDeclared bound? chosen declarations).isEmpty = declarations.isEmpty := by
  rw [inlineDeclared_eq, List.isEmpty_map]

theorem standing_inlineDeclared (chosen : String → Place → Bool) (declarations : List (String × Schema)) :
    Entries.standing (inlineDeclared bound? chosen declarations) =
      (Entries.standing declarations).map fun d => (d.1, d.2.inlineAt bound? (chosen d.1)) := by
  rw [inlineDeclared_eq]
  exact Entries.standing_map_named (fun name => inlineAt bound? (chosen name)) declarations

theorem declaredNames_inlineDeclared (chosen : String → Place → Bool)
    (declarations : List (String × Schema)) :
    declaredNames (inlineDeclared bound? chosen declarations) = declaredNames declarations := by
  simp [declaredNames, standing_inlineDeclared, Entries.names]

theorem lookup_standing_inlineDeclared (chosen : String → Place → Bool)
    (declarations : List (String × Schema)) (name : String) :
    (Entries.standing (inlineDeclared bound? chosen declarations)).lookup name =
      ((Entries.standing declarations).lookup name).map (inlineAt bound? (chosen name)) := by
  rw [standing_inlineDeclared]
  exact Entries.lookup_map_named (fun name => inlineAt bound? (chosen name)) _ name

end Inlining

section Transparent

variable {r : Registry} {c d : Context} {schema : Schema} {slot : Slot}

theorem tied_of_roomier (bound : ∀ name target, r.get? name = some target → target.OrFree)
    (attached : c.registry = some r) (roomier : c.Roomier d) (orFree : schema.OrFree) (slot : Slot) :
    Tied .unlessTooDeep (schema.validate c slot) (schema.validate d slot) := by
  refine lockstep_widened.validate ⟨⟨roomier.within, orFree, fun name target h => ?_⟩, roomier.registry⟩
  exact bound name target (Context.bound?_of_registry attached name ▸ h)

theorem tied_inline_ref (bound : ∀ name target, r.get? name = some target → target.OrFree)
    (attached : c.registry = some r) (roomier : c.Roomier d) (chosen : Place → Bool) (name : String) :
    Tied .unlessTooDeep ((ref name).validate c slot) (((ref name).inlineAt r.get? chosen).validate d slot) := by
  have same : Tied .unlessTooDeep ((ref name).validate c slot) ((ref name).validate d slot) :=
    tied_of_roomier bound attached roomier (orFree_of_leaf (by simp) rfl rfl) slot
  rw [inlineAt]
  split
  · cases here : r.get? name with
    | none => exact same
    | some target =>
        have binds : c.bound? name = some target := (Context.bound?_of_registry attached name).trans here
        rw [validate_ref_eq, Context.resolve_of_bound binds]
        cases descend : c.descend with
        | error f => exact .inl (Context.code_of_descend descend)
        | ok child =>
            -- The reference has taken a level that its target still has where it stands here itself.
            have attached' := (Context.registry_of_descend descend).trans attached
            exact tied_of_roomier bound attached' (roomier.of_descend descend) (bound name target here) slot
  · exact same

theorem tied_inline_of_below (bound : ∀ name target, r.get? name = some target → target.OrFree)
    (below : ∀ child, c.descend = .ok child → ∀ child', child.Roomier child' →
      ∀ (schema : Schema) slot chosen, schema.OrFree →
        Tied .unlessTooDeep (schema.validate child slot)
          ((schema.inlineAt r.get? chosen).validate child' slot))
    (attached : c.registry = some r) (roomier : c.Roomier d) (orFree : schema.OrFree)
    (chosen : Place → Bool) :
    Tied .unlessTooDeep (schema.validate c slot) ((schema.inlineAt r.get? chosen).validate d slot) := by
  have leaf : ∀ schema : Schema, schema.OrFree → ∀ slot,
      Tied .unlessTooDeep (schema.validate c slot) (schema.validate d slot) :=
    fun _ => tied_of_roomier bound attached roomier
  induction schema generalizing slot chosen with
  | string => exact leaf string orFree slot
  | number => exact leaf number orFree slot
  | boolean => exact leaf boolean orFree slot
  | any => exact leaf any orFree slot
  | exact expected => exact leaf (exact expected) orFree slot
  | oneOf allowed => exact leaf (oneOf allowed) orFree slot
  | keyOf keys => exact leaf (keyOf keys) orFree slot
  | array item =>
      rw [inlineAt, validate_array, validate_array]
      cases hi : Checks.items slot with
      | error f => exact tied_rfl _
      | ok items =>
          cases items with
          | nil => exact tied_rfl _
          | cons v items =>
              cases hc : c.descend with
              | error f => exact .inl (Context.code_of_descend hc)
              | ok child =>
                  obtain ⟨child', hc', roomier'⟩ := roomier.descend hc
                  have itemFree := orFree.inner (List.mem_singleton_self item)
                  rw [hc']
                  refine (tied_mapM fun e _ => ?_).map _
                  exact ((below child hc child' roomier' item _ _ itemFree).map _).under _
  | record declarations =>
      rw [inlineAt, validate_record, validate_record, isEmpty_inlineDeclared, standing_inlineDeclared]
      cases hp : Checks.properties slot with
      | error f => exact tied_rfl _
      | ok own =>
          dsimp only
          split
          · exact tied_rfl _
          · cases hc : c.descend with
            | error f => exact .inl (Context.code_of_descend hc)
            | ok child =>
                obtain ⟨child', hc', roomier'⟩ := roomier.descend hc
                rw [hc']
                dsimp only
                rw [validateFields, validateFields, List.mapM_map]
                refine (tied_mapM fun e he => ?_).map _
                have fieldFree := orFree.inner (innerPart_of_field he)
                exact ((below child hc child' roomier' e.2 _ _ fieldFree).map _).under _
  | and first second ihFirst ihSecond =>
      rw [inlineAt, validate_and, validate_and]
      have tied : Tied .unlessTooDeep (first.validate c slot)
          ((first.inlineAt r.get? (behind chosen .first)).validate d slot) :=
        ihFirst (orFree.outer (by simp [outerParts])) _
      cases hf : first.validate c slot with
      | error f =>
          rw [hf] at tied
          exact tied_error tied fun g hg => by rw [hg]
      | ok narrowed =>
          have hf' : (first.inlineAt r.get? (behind chosen .first)).validate d slot = .ok narrowed := by
            rwa [hf] at tied
          rw [hf']
          exact ihSecond (orFree.outer (by simp [outerParts])) _
  | or first second _ _ => exact absurd (.self _) (orFree first second)
  | optional inner ih =>
      rw [inlineAt, validate_optional, validate_optional]
      cases slot with
      | none => exact tied_rfl _
      | some v => exact ih (orFree.outer (List.mem_singleton_self inner)) _
  | nullable inner ih =>
      rw [inlineAt]
      by_cases hn : slot = some .null
      · rw [hn, validate_nullable_null, validate_nullable_null]
        exact tied_rfl _
      · rw [validate_nullable c inner hn, validate_nullable d _ hn]
        exact ih (orFree.outer (List.mem_singleton_self inner)) _
  | union discriminant declarations ih =>
      rw [inlineAt, validate_union, validate_union]
      split
      · exact tied_rfl _
      next tag ht =>
        rw [lookup_standing_inlineDeclared, declaredNames_inlineDeclared]
        cases hv : (Entries.standing declarations).lookup tag with
        | none => exact tied_rfl _
        | some variant =>
            exact ih _ (Entries.mem_of_lookup_standing hv) (orFree.outer (outerPart_of_variant hv)) _
      · exact tied_rfl _
  | ref name => exact tied_inline_ref bound attached roomier chosen name
  | stored schema ih =>
      rw [inlineAt, validate_stored, validate_stored]
      exact ih (orFree.outer (List.mem_singleton_self schema)) _

theorem tied_inline (bound : ∀ name target, r.get? name = some target → target.OrFree)
    (attached : c.registry = some r) (roomier : c.Roomier d) (orFree : schema.OrFree)
    (chosen : Place → Bool) :
    Tied .unlessTooDeep (schema.validate c slot) ((schema.inlineAt r.get? chosen).validate d slot) := by
  induction c using Context.induction generalizing d schema slot chosen with
  | step c below =>
      refine tied_inline_of_below bound (fun child hc child' roomier' schema slot chosen orFree => ?_)
        attached roomier orFree chosen
      exact below child hc ((Context.registry_of_descend hc).trans attached) roomier' orFree chosen

/-- References are transparent. Where neither the schema nor any bound one has an `or`, putting what the names
are bound to in the place of references, at whatever places, changes nothing that the schema makes of a slot,
unless with the references it was too deep. -/
theorem references_are_transparent (bound : ∀ name target, r.get? name = some target → target.OrFree)
    (orFree : schema.OrFree) (chosen : Place → Bool) (depth limit : Nat) (slot : Slot) :
    (∃ f, schema.validate ⟨some r, depth, limit⟩ slot = .error f ∧ f.code = .tooDeep) ∨
      (schema.inlineAt r.get? chosen).validate ⟨some r, depth, limit⟩ slot =
        schema.validate ⟨some r, depth, limit⟩ slot := by
  have tied : Tied .unlessTooDeep (schema.validate ⟨some r, depth, limit⟩ slot)
      ((schema.inlineAt r.get? chosen).validate ⟨some r, depth, limit⟩ slot) :=
    tied_inline bound rfl (.refl _) orFree chosen
  cases run : schema.validate ⟨some r, depth, limit⟩ slot with
  | ok a =>
      rw [run] at tied
      exact .inr tied
  | error f =>
      rw [run] at tied
      exact tied.imp (fun deep => ⟨f, rfl, deep⟩) (Outcome.failure?_eq_some_iff _ f).1

end Transparent

theorem references_are_transparent_trees :
    let tree := union "type" [("leaf", any), ("pair", record [("left", ref "Tree")])]
    let trees := Registry.empty.registerAll [("Tree", tree)]
    let roots : Value := .array [.object [("left", .object [("type", .string "nut")]), ("type", .string "pair")]]
    (∀ name target, trees.get? name = some target → target.OrFree) ∧ (array (ref "Tree")).OrFree ∧
      (array (ref "Tree")).inlineAt trees.get? (· = [.item]) = array tree ∧
      (array tree).validate ⟨some trees, 0, 4⟩ (some roots) =
        .error ⟨⟨[.index 0, .field "left", .field "type"]⟩, .invalidDiscriminant,
          .unknownKey "nut" ["leaf", "pair"]⟩ := by
  intro tree trees roots
  have refFree : (ref "Tree").OrFree := orFree_of_leaf (by simp) rfl rfl
  have pairFree : (record [("left", ref "Tree")]).OrFree :=
    orFree_of_parts (by simp) (by simp [outerParts]) (List.forall_mem_singleton.2 refFree)
  have treeFree : tree.OrFree := by
    refine orFree_of_parts (by simp [tree]) ?_ (by simp [tree, innerParts])
    exact List.forall_mem_cons.2 ⟨orFree_of_leaf (by simp) rfl rfl, List.forall_mem_singleton.2 pairFree⟩
  have bound : ∀ name target, trees.get? name = some target → target.OrFree := by
    intro name target here
    obtain ⟨-, rfl⟩ : name = "Tree" ∧ target = tree := by
      simpa using Entries.mem_of_lookup (show List.lookup name [("Tree", tree)] = some target from here)
    exact treeFree
  have orFree : (array (ref "Tree")).OrFree :=
    orFree_of_parts (by simp) (by simp [outerParts]) (List.forall_mem_singleton.2 refFree)
  have run : (array (ref "Tree")).validate ⟨some trees, 0, 4⟩ (some roots) =
      .error ⟨⟨[.index 0, .field "left", .field "type"]⟩, .invalidDiscriminant,
        .unknownKey "nut" ["leaf", "pair"]⟩ := rfl
  refine ⟨bound, orFree, rfl, ?_⟩
  obtain ⟨f, failed, deep⟩ | same := references_are_transparent bound orFree (· = [.item]) 0 4 (some roots)
  · rw [run] at failed
    cases failed
    cases deep
  · exact same.trans run

/-- With one level less the reference is too deep, and what it stands for is not. -/
example :
    let trees := Registry.empty.registerAll [("Tree", array (ref "Tree"))]
    ((array (ref "Tree")).validate ⟨some trees, 0, 1⟩ (some (.array [.array []]))).failure? =
        some ⟨⟨[.index 0]⟩, .tooDeep, .tooDeep 1⟩ ∧
      (((array (ref "Tree")).inlineAt trees.get? (· = [.item])).validate ⟨some trees, 0, 1⟩
        (some (.array [.array []]))).failure? = none := ⟨rfl, rfl⟩

end Schema

end JsonShape
