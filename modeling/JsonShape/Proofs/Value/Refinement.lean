import JsonShape.Proofs.Value.Indexed

/-!
Refinement of values: `new` refines `old` when they differ only by arrays of `old` that stand in `new` as
objects of their decimal indices. Refinement is transitive, and it changes nothing where there is no
array.
-/

namespace JsonShape.Value

/-- The first value is the second, save for arrays read as objects. -/
inductive Refines : Value → Value → Prop where
  | refl (v : Value) : Refines v v
  | array {new old : List Value} (length : new.length = old.length)
      (items : ∀ (i : Nat) v w, new[i]? = some v → old[i]? = some w → Refines v w) :
      Refines (.array new) (.array old)
  | object {new old : Entries Value}
      (names : ∀ key, key ∈ Entries.names new ↔ key ∈ Entries.names old)
      (members : ∀ key v w, new.lookup key = some v → old.lookup key = some w → Refines v w) :
      Refines (.object new) (.object old)
  | reread {new : Entries Value} {old : List Value}
      (names : ∀ key, key ∈ Entries.names new ↔ ∃ i < old.length, key = toString i)
      (members : ∀ (i : Nat) v w, new.lookup (toString i) = some v → old[i]? = some w →
        Refines v w) :
      Refines (.object new) (.array old)

theorem Refines.trans {a b c : Value} (hab : Refines a b) (hbc : Refines b c) : Refines a c := by
  induction hab generalizing c with
  | refl v => exact hbc
  | array length items ih =>
      rename_i new mid
      cases hbc with
      | refl => exact .array length items
      | array length' items' =>
          rename_i old
          refine .array (length.trans length') fun i v w hv hw => ?_
          have hi : i < mid.length := by
            have hlt := (List.getElem?_eq_some_iff.1 hv).1
            omega
          have hu : mid[i]? = some mid[i] := List.getElem?_eq_getElem hi
          exact ih i v mid[i] hv hu (items' i mid[i] w hu hw)
  | object names members ih =>
      rename_i new mid
      cases hbc with
      | refl => exact .object names members
      | object names' members' =>
          rename_i old
          refine .object (fun key => (names key).trans (names' key)) fun key v w hv hw => ?_
          have hn : key ∈ Entries.names mid := (names' key).2 ((Entries.mem_names_iff _ _).2 ⟨w, hw⟩)
          obtain ⟨u, hu⟩ := (Entries.mem_names_iff _ _).1 hn
          exact ih key v u hv hu (members' key u w hu hw)
      | reread names' members' =>
          rename_i old
          refine .reread (fun key => (names key).trans (names' key)) fun i v w hv hw => ?_
          have hi : i < old.length := (List.getElem?_eq_some_iff.1 hw).1
          have hn : toString i ∈ Entries.names mid := (names' _).2 ⟨i, hi, rfl⟩
          obtain ⟨u, hu⟩ := (Entries.mem_names_iff _ _).1 hn
          exact ih (toString i) v u hv hu (members' i u w hu hw)
  | reread names members ih =>
      rename_i new mid
      cases hbc with
      | refl => exact .reread names members
      | array length' items' =>
          rename_i old
          refine .reread (fun key => by rw [names key, length']) fun i v w hv hw => ?_
          have hi : i < mid.length := by
            have hlt := (List.getElem?_eq_some_iff.1 hw).1
            omega
          have hu : mid[i]? = some mid[i] := List.getElem?_eq_getElem hi
          exact ih i v mid[i] hv hu (items' i mid[i] w hu hw)

theorem refines_of_properties {v : Value} {own new : Entries Value}
    (properties : v.properties? = some own)
    (members : ∀ key, Option.Rel Refines (new.lookup key) (own.lookup key)) :
    Refines (.object new) v := by
  have names : ∀ key, key ∈ Entries.names new ↔ key ∈ Entries.names own := by
    intro key
    rw [Entries.mem_names_iff, Entries.mem_names_iff]
    have h := members key
    cases ha : new.lookup key <;> cases hb : own.lookup key <;> simp_all
  have refined : ∀ key a b, new.lookup key = some a → own.lookup key = some b → Refines a b := by
    intro key a b ha hb
    have h := members key
    rw [ha, hb] at h
    exact Option.rel_some_some.1 h
  cases v with
  | object old =>
      have ho : old = own := by simpa [properties?] using properties
      subst ho
      exact .object names refined
  | array items =>
      have ho : indexed items = own := by simpa [properties?] using properties
      subst ho
      refine .reread (fun key => (names key).trans (mem_names_indexed items key)) ?_
      intro i a b ha hb
      exact refined (toString i) a b ha (by rw [lookup_indexed, hb])
  | _ => simp [properties?] at properties

mutual

def ArrayFree : Value → Prop
  | array _ => False
  | object members => ArrayFreeMembers members
  | _ => True

def ArrayFreeMembers : List (String × Value) → Prop
  | [] => True
  | (_, v) :: members => ArrayFree v ∧ ArrayFreeMembers members

end

theorem arrayFree_of_lookup {members : Entries Value} (h : ArrayFree (.object members))
    {key : String} {v : Value} (hv : members.lookup key = some v) : ArrayFree v := by
  have each : ∀ l : List (String × Value), ArrayFreeMembers l → ∀ e ∈ l, ArrayFree e.2 := by
    intro l
    induction l with
    | nil => simp
    | cons d l ih =>
        intro hl e he
        obtain ⟨hd, ht⟩ := hl
        cases he with
        | head => exact hd
        | tail _ he => exact ih ht e he
  exact each members h (key, v) (Entries.mem_of_lookup hv)

structure Keeps (new old : Value) : Prop where
  refines : Refines new old
  same : ArrayFree old → new = old

theorem Keeps.refl (v : Value) : Keeps v v := ⟨.refl v, fun _ => rfl⟩

theorem Keeps.trans {a b c : Value} (hab : Keeps a b) (hbc : Keeps b c) : Keeps a c := by
  refine ⟨hab.refines.trans hbc.refines, fun free => ?_⟩
  have hb : b = c := hbc.same free
  subst hb
  exact hab.same free

end JsonShape.Value
