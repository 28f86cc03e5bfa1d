import JsonShape.Path
import JsonShape.Proofs.Value.Refinement

/-!
Places inside a value. An index leads to the item of an array; a name leads to the property of an object,
or to the item of an array that has it as decimal index. A value that refines another has something at a
place only where the other has, and of the same kind unless an array was read as an object there.
-/

namespace JsonShape

namespace Value

def itemNamed? (items : List Value) (name : String) : Slot :=
  (items.zipIdx.find? fun e => toString e.2 = name).map Prod.fst

def child? : Value → Segment → Slot
  | array items, .index i => items[i]?
  | array items, .field name => itemNamed? items name
  | object members, .field name => members.lookup name
  | _, _ => none

theorem itemNamed?_eq (items : List Value) (name : String) :
    itemNamed? items name = (indexed items).lookup name := by
  unfold itemNamed?
  cases h : items.zipIdx.find? fun e => toString e.2 = name with
  | none =>
      refine (lookup_indexed_eq_none fun i hi hn => ?_).symm
      have hm : (items[i], i) ∈ items.zipIdx :=
        List.mk_mem_zipIdx_iff_getElem?.2 (List.getElem?_eq_getElem hi)
      have hne := List.find?_eq_none.1 h _ hm
      exact hne (by simp [hn])
  | some e =>
      have hn : toString e.2 = name := by simpa using List.find?_some h
      have he : items[e.2]? = some e.1 :=
        List.mem_zipIdx_iff_getElem?.1 (List.mem_of_find?_eq_some h)
      rw [← hn, lookup_indexed, he]
      rfl

theorem child?_field {v : Value} {own : Entries Value} (properties : v.properties? = some own)
    (name : String) : v.child? (.field name) = own.lookup name := by
  cases v with
  | object members =>
      have ho : members = own := by simpa [properties?] using properties
      rw [← ho]
      rfl
  | array items =>
      have ho : indexed items = own := by simpa [properties?] using properties
      rw [← ho, ← itemNamed?_eq]
      rfl
  | _ => simp [properties?] at properties

@[simp] theorem child?_toString (items : List Value) (i : Nat) :
    child? (.array items) (.field (toString i)) = items[i]? :=
  (itemNamed?_eq items _).trans (lookup_indexed items i)

theorem refines_child {new old : Value} (h : Refines new old) {s : Segment} {u : Value}
    (hu : new.child? s = some u) : ∃ w, old.child? s = some w ∧ Refines u w := by
  cases h with
  | refl => exact ⟨u, hu, .refl u⟩
  | array length items =>
      rename_i new old
      have item : ∀ i : Nat, new[i]? = some u → ∃ w, old[i]? = some w ∧ Refines u w := by
        intro i hi
        have hlt : i < old.length := by
          have := (List.getElem?_eq_some_iff.1 hi).1
          omega
        have ho : old[i]? = some old[i] := List.getElem?_eq_getElem hlt
        exact ⟨old[i], ho, items i u old[i] hi ho⟩
      cases s with
      | index i => exact item i hu
      | field name =>
          have hn : name ∈ Entries.names (indexed new) := by
            refine (Entries.mem_names_iff _ _).2 ⟨u, ?_⟩
            rw [← itemNamed?_eq]
            exact hu
          obtain ⟨i, -, rfl⟩ := (mem_names_indexed new name).1 hn
          rw [child?_toString] at hu ⊢
          exact item i hu
  | object names members =>
      rename_i new old
      cases s with
      | index i => cases hu
      | field name =>
          have hn := (names name).1 ((Entries.mem_names_iff _ _).2 ⟨u, hu⟩)
          obtain ⟨w, hw⟩ := (Entries.mem_names_iff _ _).1 hn
          exact ⟨w, hw, members name u w hu hw⟩
  | reread names members =>
      rename_i new old
      cases s with
      | index i => cases hu
      | field name =>
          have hn := (names name).1 ((Entries.mem_names_iff _ _).2 ⟨u, hu⟩)
          obtain ⟨i, hi, rfl⟩ := hn
          have ho : old[i]? = some old[i] := List.getElem?_eq_getElem hi
          exact ⟨old[i], (child?_toString old i).trans ho, members i u old[i] hu ho⟩

theorem refines_child_none {new old : Value} (h : Refines new old) {name : String}
    (hn : new.child? (.field name) = none) : old.child? (.field name) = none := by
  cases h with
  | refl => exact hn
  | array length items =>
      rename_i new old
      have absent : name ∉ Entries.names (indexed new) := by
        refine (Entries.lookup_eq_none_iff _ _).1 ?_
        rw [← itemNamed?_eq]
        exact hn
      rw [mem_names_indexed, length, ← mem_names_indexed] at absent
      exact (itemNamed?_eq old name).trans ((Entries.lookup_eq_none_iff _ _).2 absent)
  | object names members =>
      rename_i new old
      have absent := mt (names name).2 ((Entries.lookup_eq_none_iff new name).1 hn)
      exact (Entries.lookup_eq_none_iff old name).2 absent
  | reread names members =>
      rename_i new old
      have absent := mt (names name).2 ((Entries.lookup_eq_none_iff new name).1 hn)
      rw [← mem_names_indexed] at absent
      exact (itemNamed?_eq old name).trans ((Entries.lookup_eq_none_iff _ _).2 absent)

theorem kind_of_refines {new old : Value} (h : Refines new old) :
    Kind.ofValue new = Kind.ofValue old ∨
      Kind.ofValue new = .object ∧ Kind.ofValue old = .array := by
  cases h with
  | refl => exact .inl rfl
  | array => exact .inl rfl
  | object => exact .inl rfl
  | reread => exact .inr ⟨rfl, rfl⟩

end Value

namespace Slot

def follow : Slot → List Segment → Slot
  | slot, [] => slot
  | none, _ :: _ => none
  | some v, s :: rest => follow (v.child? s) rest

@[simp] theorem follow_cons (v : Value) (s : Segment) (rest : List Segment) :
    follow (some v) (s :: rest) = follow (v.child? s) rest := rfl

/-- Segments that lead to a value, or to the lack of a property where a value is. -/
inductive Leads : Slot → List Segment → Prop where
  | here (slot : Slot) : Leads slot []
  | lacking {v : Value} {name : String} (absent : v.child? (.field name) = none) :
      Leads (some v) [.field name]
  | step {v w : Value} {s : Segment} {rest : List Segment} (present : v.child? s = some w)
      (leads : Leads (some w) rest) : Leads (some v) (s :: rest)

theorem leads_field {v : Value} {name : String} {rest : List Segment}
    (h : Leads (v.child? (.field name)) rest) : Leads (some v) (.field name :: rest) := by
  cases hc : v.child? (.field name) with
  | none =>
      rw [hc] at h
      cases h
      exact .lacking hc
  | some w => exact .step hc (hc ▸ h)

theorem eq_nil_of_leads_none {place : List Segment} (h : Leads none place) : place = [] := by
  cases h
  rfl

theorem present_of_leads {slot : Slot} {before after : List Segment} {s : Segment}
    (h : Leads slot (before ++ s :: after)) : ∃ w, follow slot before = some w := by
  induction before generalizing slot with
  | nil =>
      cases h with
      | lacking => exact ⟨_, rfl⟩
      | step => exact ⟨_, rfl⟩
  | cons b before ih =>
      generalize hp : b :: before ++ s :: after = place at h
      cases h with
      | here => simp at hp
      | lacking => simp at hp
      | step present leads =>
          obtain ⟨rfl, rfl⟩ := List.cons.inj hp
          obtain ⟨u, hu⟩ := ih leads
          refine ⟨u, ?_⟩
          rw [follow_cons, present, hu]

theorem present_or_field_of_leads {v : Value} {place : List Segment} (h : Leads (some v) place) :
    (∃ w, follow (some v) place = some w) ∨ ∃ name, place.getLast? = some (.field name) := by
  generalize hs : (some v : Slot) = slot at h
  induction h generalizing v with
  | here => exact .inl ⟨v, by rw [← hs, follow]⟩
  | lacking => exact .inr ⟨_, rfl⟩
  | step present leads ih =>
      rw [follow_cons, present]
      obtain hw | ⟨name, hn⟩ := ih rfl
      · exact .inl hw
      · exact .inr ⟨name, by rw [List.getLast?_cons, hn]; rfl⟩

theorem leads_of_refines {new old : Slot} (h : Option.Rel Value.Refines new old)
    {place : List Segment} (leads : Leads new place) : Leads old place := by
  induction leads generalizing old with
  | here => exact .here old
  | lacking absent =>
      cases h with
      | some h => exact .lacking (Value.refines_child_none h absent)
  | step present _ ih =>
      cases h with
      | some h =>
          obtain ⟨w, hw, hr⟩ := Value.refines_child h present
          exact .step hw (ih (.some hr))

theorem kind_follow_of_refines {new old : Slot} (h : Option.Rel Value.Refines new old)
    {place : List Segment} (leads : Leads new place) :
    Kind.ofSlot (follow new place) = Kind.ofSlot (follow old place) ∨
      Kind.ofSlot (follow new place) = .object ∧ Kind.ofSlot (follow old place) = .array := by
  induction leads generalizing old with
  | here =>
      cases h with
      | none => exact .inl rfl
      | some h => exact Value.kind_of_refines h
  | lacking absent =>
      cases h with
      | some h =>
          have ho := Value.refines_child_none h absent
          rw [follow_cons, follow_cons, absent, ho]
          exact .inl rfl
  | step present _ ih =>
      cases h with
      | some h =>
          obtain ⟨w, hw, hr⟩ := Value.refines_child h present
          rw [follow_cons, follow_cons, present, hw]
          exact ih (.some hr)

end Slot

end JsonShape
