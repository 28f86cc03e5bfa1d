import JsonShape.Proofs.Value.Navigation

/-!
The height of a value: how many arrays and objects stand inside one another, itself included. What an
array or an object holds is lower than itself, also where the array is read as an object.
-/

namespace JsonShape.Value

mutual

/-- One more than the greatest height of what an array or an object holds; scalars have height 0. -/
def height : Value → Nat
  | array items => 1 + heightItems items
  | object members => 1 + heightMembers members
  | _ => 0

def heightItems : List Value → Nat
  | [] => 0
  | v :: items => max (height v) (heightItems items)

def heightMembers : List (String × Value) → Nat
  | [] => 0
  | (_, v) :: members => max (height v) (heightMembers members)

end

theorem heightItems_le_iff (items : List Value) (n : Nat) :
    heightItems items ≤ n ↔ ∀ v ∈ items, v.height ≤ n := by
  induction items with
  | nil => simp [heightItems]
  | cons v items ih => rw [heightItems, Nat.max_le, ih, List.forall_mem_cons]

theorem heightMembers_le_iff (members : List (String × Value)) (n : Nat) :
    heightMembers members ≤ n ↔ ∀ e ∈ members, e.2.height ≤ n := by
  induction members with
  | nil => simp [heightMembers]
  | cons e members ih =>
      obtain ⟨name, v⟩ := e
      rw [heightMembers, Nat.max_le, ih, List.forall_mem_cons]

theorem height_item_lt {items : List Value} {v : Value} (h : v ∈ items) :
    v.height < (array items).height := by
  have hv := (heightItems_le_iff items _).1 (Nat.le_refl _) v h
  rw [height]
  omega

theorem height_member_lt {members : List (String × Value)} {e : String × Value} (h : e ∈ members) :
    e.2.height < (object members).height := by
  have he := (heightMembers_le_iff members _).1 (Nat.le_refl _) e h
  rw [height]
  omega

theorem height_array_le {new old : List Value} (h : ∀ v ∈ new, ∃ w ∈ old, v.height ≤ w.height) :
    (array new).height ≤ (array old).height := by
  have items : heightItems new ≤ heightItems old := by
    refine (heightItems_le_iff new _).2 fun v hv => ?_
    obtain ⟨w, hw, le⟩ := h v hv
    exact Nat.le_trans le ((heightItems_le_iff old _).1 (Nat.le_refl _) w hw)
  rw [height, height]
  omega

theorem height_object_le {members : List (String × Value)} {n : Nat} (pos : 0 < n)
    (h : ∀ e ∈ members, e.2.height < n) : (object members).height ≤ n := by
  have hm := (heightMembers_le_iff members (n - 1)).2 fun e he => Nat.le_sub_one_of_lt (h e he)
  rw [height]
  omega

variable {v : Value} {own : Entries Value}

theorem height_pos (properties : v.properties? = some own) : 0 < v.height := by
  cases v with
  | object members =>
      rw [height]
      omega
  | array items =>
      rw [height]
      omega
  | _ => simp [properties?] at properties

theorem height_property_lt (properties : v.properties? = some own) {e : String × Value}
    (h : e ∈ own) : e.2.height < v.height := by
  cases v with
  | object members =>
      have ho : members = own := by simpa [properties?] using properties
      exact height_member_lt (ho ▸ h)
  | array items =>
      have ho : indexed items = own := by simpa [properties?] using properties
      rw [← ho] at h
      obtain ⟨⟨w, i⟩, hw, rfl⟩ := List.mem_map.1 (Entries.mem_of_mem_sorted h)
      exact height_item_lt (List.fst_mem_of_mem_zipIdx hw)
  | _ => simp [properties?] at properties

end JsonShape.Value

namespace JsonShape

def Slot.height : Slot → Nat
  | none => 0
  | some v => v.height

theorem Value.height_child?_lt {v : Value} {own : Entries Value}
    (properties : v.properties? = some own) (s : Segment) :
    Slot.height (v.child? s) < v.height := by
  cases hs : v.child? s with
  | none => exact height_pos properties
  | some w =>
      cases s with
      | field name =>
          rw [child?_field properties] at hs
          exact height_property_lt properties (Entries.mem_of_lookup hs)
      | index i =>
          cases v with
          | array items => exact height_item_lt (List.mem_of_getElem? hs)
          | _ => cases hs

end JsonShape
