import JsonShape.Proofs.Entries
import JsonShape.Value.Basic

/-!
Arrays read as objects. Decimal indices never collide, so the properties of an array are its items, each
under its own index and nothing else.
-/

namespace JsonShape

theorem toString_injective {m n : Nat} (h : toString m = toString n) : m = n := by
  have digits : Nat.toDigits 10 m = Nat.toDigits 10 n := by
    rw [← Nat.toList_repr, ← Nat.toList_repr]
    exact congrArg String.toList h
  calc
    m = Nat.ofDigitChars 10 (Nat.toDigits 10 m) 0 := Nat.ofDigitChars_ten_toDigits.symm
    _ = Nat.ofDigitChars 10 (Nat.toDigits 10 n) 0 := by rw [digits]
    _ = n := Nat.ofDigitChars_ten_toDigits

namespace Value

theorem names_indices (items : List Value) :
    Entries.names (items.zipIdx.map fun (v, i) => (toString i, v)) =
      (List.range items.length).map toString := by
  rw [List.range_eq_range', ← List.zipIdx_map_snd 0 items, Entries.names, List.map_map,
    List.map_map]
  rfl

theorem nodup_indices (items : List Value) :
    (Entries.names (items.zipIdx.map fun (v, i) => (toString i, v))).Nodup := by
  rw [names_indices]
  refine List.pairwise_map.2 (List.nodup_range.imp ?_)
  intro m n hne he
  exact hne (toString_injective he)

@[simp] theorem mem_names_indexed (items : List Value) (key : String) :
    key ∈ Entries.names (indexed items) ↔ ∃ i < items.length, key = toString i := by
  rw [indexed, Entries.mem_names_sorted, names_indices]
  simp [eq_comm]

@[simp] theorem lookup_indexed (items : List Value) (i : Nat) :
    (indexed items).lookup (toString i) = items[i]? := by
  cases h : items[i]? with
  | none =>
      refine (Entries.lookup_eq_none_iff _ _).2 fun hm => ?_
      obtain ⟨j, hj, hij⟩ := (mem_names_indexed items _).1 hm
      have hi : i = j := toString_injective hij
      have hlen := List.getElem?_eq_none_iff.1 h
      omega
  | some v =>
      refine Entries.lookup_sorted_of_mem (nodup_indices items) ?_
      exact List.mem_map.2 ⟨(v, i), List.mk_mem_zipIdx_iff_getElem?.2 h, rfl⟩

theorem lookup_indexed_eq_none {items : List Value} {key : String}
    (h : ∀ i < items.length, key ≠ toString i) : (indexed items).lookup key = none := by
  refine (Entries.lookup_eq_none_iff _ _).2 fun hm => ?_
  obtain ⟨i, hi, hk⟩ := (mem_names_indexed items key).1 hm
  exact h i hi hk

end Value

end JsonShape
