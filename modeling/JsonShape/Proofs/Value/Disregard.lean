import JsonShape.Proofs.Value.Indexed
import JsonShape.Value.Equality

/-!
Values without the properties of one name, at every depth. Two values that are equal then have the same
kind, the same items and properties of other names up to the same difference, and count as equal to the same
literals, as long as these hold no object.
-/

namespace JsonShape.Value

mutual

/-- The value without the properties called `key`, at every depth. -/
def without (key : String) : Value → Value
  | array items => array (withoutItems key items)
  | object members => object (withoutMembers key members)
  | v => v

def withoutItems (key : String) : List Value → List Value
  | [] => []
  | v :: items => without key v :: withoutItems key items

def withoutMembers (key : String) : List (String × Value) → List (String × Value)
  | [] => []
  | (name, v) :: members =>
    if name = key then withoutMembers key members
    else (name, without key v) :: withoutMembers key members

end

variable {key : String}

theorem withoutItems_eq_map (items : List Value) : withoutItems key items = items.map (without key) := by
  induction items with
  | nil => rfl
  | cons v items ih => rw [withoutItems, ih, List.map_cons]

theorem withoutMembers_eq (members : Entries Value) :
    withoutMembers key members = Entries.mapValues (without key) (members.filter (·.1 ≠ key)) := by
  induction members with
  | nil => rfl
  | cons e members ih =>
      obtain ⟨name, v⟩ := e
      by_cases h : name = key
      · simpa [withoutMembers, h] using ih
      · simpa [withoutMembers, h, Entries.mapValues] using ih

theorem lookup_withoutMembers {name : String} (h : name ≠ key) (members : Entries Value) :
    (withoutMembers key members).lookup name = (members.lookup name).map (without key) := by
  induction members with
  | nil => rfl
  | cons e members ih =>
      obtain ⟨other, v⟩ := e
      by_cases hk : other = key
      · have hn : name ≠ other := fun he => h (he.trans hk)
        simp [withoutMembers, hk, ih, hk ▸ hn]
      · by_cases hn : name = other
        · simp [withoutMembers, hk, hn]
        · simp [withoutMembers, hk, hn, ih]

theorem withoutMembers_replace {name : String} (h : name ≠ key) (v : Value) (members : Entries Value) :
    withoutMembers key (Entries.replace name v members) =
      Entries.replace name (v.without key) (withoutMembers key members) := by
  induction members with
  | nil => rfl
  | cons e members ih =>
      obtain ⟨other, u⟩ := e
      by_cases hn : other = name
      · subst hn
        simp [Entries.replace, withoutMembers, h]
      · by_cases hk : other = key
        · subst hk
          simp [Entries.replace, withoutMembers, hn, ih]
        · simp [Entries.replace, withoutMembers, hn, hk, ih]

theorem withoutMembers_indexed (items : List Value) :
    withoutMembers key (indexed items) = (indexed (withoutItems key items)).filter (·.1 ≠ key) := by
  have map : indexed (withoutItems key items) = Entries.mapValues (without key) (indexed items) := by
    rw [withoutItems_eq_map, indexed, indexed, ← Entries.sorted_mapValues, List.zipIdx_map]
    simp [Entries.mapValues, Function.comp_def]
  rw [map, withoutMembers_eq, Entries.mapValues, Entries.mapValues, List.filter_map]
  rfl

@[simp] theorem kind_without (v : Value) : Kind.ofValue (v.without key) = Kind.ofValue v := by
  cases v <;> rfl

theorem properties?_without {v v' : Value} (same : v.without key = v'.without key) :
    Option.Rel (fun own own' => withoutMembers key own = withoutMembers key own')
      v.properties? v'.properties? := by
  cases v with
  | object members =>
      cases v' with
      | object members' => exact .some (by simpa [without] using same)
      | _ => simp [without] at same
  | array items =>
      cases v' with
      | array items' =>
          have h : withoutItems key items = withoutItems key items' := by simpa [without] using same
          exact .some (by rw [withoutMembers_indexed, withoutMembers_indexed, h])
      | _ => simp [without] at same
  | _ =>
      cases v' with
      | array items' => simp [without] at same
      | object members' => simp [without] at same
      | _ => exact .none

mutual

def ObjectFree : Value → Prop
  | object _ => False
  | array items => ObjectFreeItems items
  | _ => True

def ObjectFreeItems : List Value → Prop
  | [] => True
  | v :: items => ObjectFree v ∧ ObjectFreeItems items

end

mutual

theorem same_without : ∀ v expected : Value, expected.ObjectFree →
    same (v.without key) expected = same v expected
  | array items, expected, free => by
      cases expected with
      | array others => exact sameItems_without items others free
      | _ => rfl
  | object members, expected, free => by
      cases expected with
      | object others => exact absurd free id
      | _ => rfl
  | null, _, _ => rfl
  | bool _, _, _ => rfl
  | number _, _, _ => rfl
  | string _, _, _ => rfl

theorem sameItems_without : ∀ items others : List Value, ObjectFreeItems others →
    sameItems (withoutItems key items) others = sameItems items others
  | [], _, _ => rfl
  | _ :: _, [], _ => rfl
  | v :: items, expected :: others, free => by
      rw [withoutItems, sameItems, sameItems, same_without v expected free.1,
        sameItems_without items others free.2]

end

end JsonShape.Value

namespace JsonShape.Slot

def without (key : String) (slot : Slot) : Slot := slot.map (Value.without key)

/-- The slots hold the same, up to the properties called `key`. -/
def AgreeBut (key : String) (slot slot' : Slot) : Prop := slot.without key = slot'.without key

end JsonShape.Slot
