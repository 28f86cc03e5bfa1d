import JsonShape.Validation.Checks

/-!
The checks of a slot: what each accepts, and the failure it makes of all else.
-/

namespace JsonShape.Checks

@[simp] theorem string_eq_ok_iff (slot : Slot) (s : String) :
    string slot = .ok s ↔ slot = some (.string s) := by
  unfold string
  split
  next => simp
  next h => exact ⟨nofun, fun hs => absurd hs (h s)⟩

@[simp] theorem number_eq_ok_iff (slot : Slot) (n : Number) :
    number slot = .ok n ↔ slot = some (.number n) := by
  unfold number
  split
  next => simp
  next h => exact ⟨nofun, fun hn => absurd hn (h n)⟩

@[simp] theorem boolean_eq_ok_iff (slot : Slot) (b : Bool) :
    boolean slot = .ok b ↔ slot = some (.bool b) := by
  unfold boolean
  split
  next => simp
  next h => exact ⟨nofun, fun hb => absurd hb (h b)⟩

@[simp] theorem items_eq_ok_iff (slot : Slot) (l : List Value) :
    items slot = .ok l ↔ slot = some (.array l) := by
  unfold items
  split
  next => simp
  next h => exact ⟨nofun, fun hl => absurd hl (h l)⟩

@[simp] theorem properties_eq_ok_iff (slot : Slot) (own : Entries Value) :
    properties slot = .ok own ↔ ∃ v, slot = some v ∧ v.properties? = some own := by
  unfold properties
  cases slot with
  | none => simp
  | some v => cases h : v.properties? <;> simp [h]

theorem eq_of_exactly {expected : Value} {slot : Slot} {v : Value}
    (h : exactly expected slot = .ok v) : slot = some v := by
  unfold exactly at h
  split at h
  · split at h
    · cases h
      rfl
    · cases h
  · cases h

theorem eq_of_among {allowed : List Value} {slot : Slot} {v : Value}
    (h : among allowed slot = .ok v) : slot = some v := by
  unfold among at h
  split at h
  · split at h
    · cases h
      rfl
    · cases h
  · cases h

@[simp] theorem key_eq_ok_iff (keys : List String) (slot : Slot) (s : String) :
    key keys slot = .ok s ↔ slot = some (.string s) ∧ s ∈ keys := by
  rw [← string_eq_ok_iff]
  unfold key
  cases h : string slot with
  | error f => simp
  | ok t =>
      by_cases ht : t ∈ keys
      · have hs : t = s → s ∈ keys := fun e => e ▸ ht
        simpa [ht] using hs
      · have hs : t = s → s ∉ keys := fun e => e ▸ ht
        simpa [ht] using hs

theorem error_of_string {slot : Slot} {f : Failure} (h : string slot = .error f) :
    f = .wrongKind "string" slot := by
  unfold string at h
  split at h <;> cases h
  rfl

theorem error_of_number {slot : Slot} {f : Failure} (h : number slot = .error f) :
    f = .wrongKind "number" slot := by
  unfold number at h
  split at h <;> cases h
  rfl

theorem error_of_boolean {slot : Slot} {f : Failure} (h : boolean slot = .error f) :
    f = .wrongKind "boolean" slot := by
  unfold boolean at h
  split at h <;> cases h
  rfl

theorem error_of_items {slot : Slot} {f : Failure} (h : items slot = .error f) :
    f = .wrongKind "array" slot := by
  unfold items at h
  split at h <;> cases h
  rfl

theorem error_of_properties {slot : Slot} {f : Failure} (h : properties slot = .error f) :
    f = .wrongKind "object" slot := by
  unfold properties at h
  split at h <;> cases h
  rfl

theorem error_of_exactly {expected : Value} {slot : Slot} {f : Failure}
    (h : exactly expected slot = .error f) :
    f = .atRoot .invalidValue (.notExactly expected slot) := by
  unfold exactly at h
  split at h
  · split at h <;> cases h
    rfl
  · cases h
    rfl

theorem error_of_among {allowed : List Value} {slot : Slot} {f : Failure}
    (h : among allowed slot = .error f) :
    f = .atRoot .invalidValue (.notAmong allowed slot) := by
  unfold among at h
  split at h
  · split at h <;> cases h
    rfl
  · cases h
    rfl

theorem error_of_key {keys : List String} {slot : Slot} {f : Failure}
    (h : key keys slot = .error f) :
    f = .wrongKind "string" slot ∨
      ∃ s, f = .atRoot .invalidValue (.unknownKey s (Schema.distinctKeys keys)) := by
  unfold key at h
  cases hs : string slot with
  | error g =>
      rw [hs] at h
      cases h
      exact .inl (error_of_string hs)
  | ok s =>
      rw [hs] at h
      by_cases hk : s ∈ keys
      · simp [hk] at h
      · refine .inr ⟨s, ?_⟩
        simpa [hk, eq_comm] using h

theorem key_string (keys : List String) (s : String) :
    key keys (some (.string s)) =
      if s ∈ keys then .ok s
      else .error (.atRoot .invalidValue (.unknownKey s (Schema.distinctKeys keys))) := rfl

theorem key_of_other {slot : Slot} (h : ∀ s, slot ≠ some (.string s)) (keys : List String) :
    key keys slot = .error (.wrongKind "string" slot) := by
  cases found : string slot with
  | error f =>
      rw [key, found, error_of_string found]
  | ok s => exact absurd ((string_eq_ok_iff slot s).1 found) (h s)

theorem error_of_tag {discriminant : String} {slot : Slot} {f : Failure}
    (h : tag discriminant slot = .error f) : f = .wrongKind "object" slot := by
  unfold tag at h
  split at h <;> cases h
  rfl

theorem tag_none (discriminant : String) :
    tag discriminant none = .error (.wrongKind "object" none) := rfl

end JsonShape.Checks
