/-!
The bytes of a string in UTF-8. A character is encoded by a first byte, which tells how many bytes follow, and by
these; both grow with its code point. So the order of strings by their code points is that by their bytes.
-/

namespace JsonShape

def bytes (s : String) : List UInt8 := s.toUTF8.data.toList

theorem bytes_eq_flatMap (s : String) : bytes s = s.toList.flatMap String.utf8EncodeChar := by
  rw [bytes, String.toUTF8_eq_toByteArray, ← String.utf8Encode_toList, List.utf8Encode,
    List.data_toByteArray]

namespace Utf8

/-- How many bytes follow the first one of a code point. -/
def following (n : Nat) : Nat :=
  if n ≤ 0x7f then 0 else if n ≤ 0x7ff then 1 else if n ≤ 0xffff then 2 else 3

/-- The bits by which a first byte tells how many bytes follow. -/
def marker : Nat → Nat
  | 0 => 0
  | 1 => 0xc0
  | 2 => 0xe0
  | _ => 0xf0

def leading : (following n : Nat) → Nat
  | 0, n => n
  | k + 1, n => leading k (n / 64)

/-- The bytes that follow the first one, with six bits each. -/
def continuation : (following n : Nat) → List UInt8
  | 0, _ => []
  | k + 1, n => continuation k (n / 64) ++ [UInt8.ofNat (n % 64 + 128)]

def first (n : Nat) : Nat := marker (following n) + leading (following n) n

theorem following_cases (n : Nat) :
    (n ≤ 0x7f ∧ following n = 0) ∨ (0x7f < n ∧ n ≤ 0x7ff ∧ following n = 1) ∨
      (0x7ff < n ∧ n ≤ 0xffff ∧ following n = 2) ∨ (0xffff < n ∧ following n = 3) := by
  unfold following
  split
  · omega
  split
  · omega
  split <;> omega

theorem ofNat_lt_ofNat {a b : Nat} (h : a < b) (hb : b < 256) : UInt8.ofNat a < UInt8.ofNat b := by
  rw [UInt8.lt_iff_toNat_lt, UInt8.toNat_ofNat', UInt8.toNat_ofNat']
  omega

theorem toNat_lt (c : Char) : c.toNat < 0x110000 := by
  rcases c.valid with h | h
  · exact Nat.lt_trans h (by decide)
  · exact h.2

theorem utf8EncodeChar_eq (c : Char) :
    String.utf8EncodeChar c =
      UInt8.ofNat (first c.toNat) :: continuation (following c.toNat) c.toNat := by
  have range := toNat_lt c
  have cases := following_cases c.toNat
  simp only [String.utf8EncodeChar, Char.toNat_val, first]
  split
  next =>
    have h : following c.toNat = 0 := by omega
    simp [h, marker, leading, continuation]
  split
  next =>
    have h : following c.toNat = 1 := by omega
    have bits : c.toNat / 64 % 32 + 192 = 192 + c.toNat / 64 := by omega
    simp [h, bits, marker, leading, continuation]
  split
  next =>
    have h : following c.toNat = 2 := by omega
    have bits : c.toNat / 4096 % 16 + 224 = 224 + c.toNat / 64 / 64 := by omega
    simp [h, bits, marker, leading, continuation]
  next =>
    have h : following c.toNat = 3 := by omega
    have bits : c.toNat / 262144 % 8 + 240 = 240 + c.toNat / 64 / 64 / 64 := by omega
    have more : c.toNat / 4096 = c.toNat / 64 / 64 := by omega
    simp [h, bits, more, marker, leading, continuation]

theorem continuation_lt {k m n : Nat} (same : leading k m = leading k n) (lt : m < n) (x y : List UInt8) :
    continuation k m ++ x < continuation k n ++ y := by
  induction k generalizing m n x y with
  | zero => exact absurd same (Nat.ne_of_lt lt)
  | succ k ih =>
      simp only [continuation, List.append_assoc]
      rcases Nat.lt_or_ge (m / 64) (n / 64) with less | notLess
      · exact ih same less _ _
      · have equal : m / 64 = n / 64 := by omega
        rw [equal]
        refine List.append_left_lt (List.cons_lt_cons_iff.2 (.inl (ofNat_lt_ofNat ?_ ?_)))
        · omega
        · omega

theorem first_lt_or_eq {m n : Nat} (lt : m < n) (range : n < 0x110000) :
    first m < first n ∨ first m = first n ∧ following m = following n ∧
      leading (following m) m = leading (following m) n := by
  unfold first
  rcases following_cases m with ⟨_, hm⟩ | ⟨_, _, hm⟩ | ⟨_, _, hm⟩ | ⟨_, hm⟩ <;>
    rcases following_cases n with ⟨_, hn⟩ | ⟨_, _, hn⟩ | ⟨_, _, hn⟩ | ⟨_, hn⟩ <;>
      simp only [hm, hn, marker, leading, true_and] <;> omega

theorem first_lt {n : Nat} (range : n < 0x110000) : first n < 256 := by
  unfold first
  rcases following_cases n with ⟨_, hn⟩ | ⟨_, _, hn⟩ | ⟨_, _, hn⟩ | ⟨_, hn⟩ <;>
    simp only [hn, marker, leading] <;> omega

theorem utf8EncodeChar_lt {c d : Char} (lt : c < d) (x y : List UInt8) :
    String.utf8EncodeChar c ++ x < String.utf8EncodeChar d ++ y := by
  have lt : c.toNat < d.toNat := lt
  rw [utf8EncodeChar_eq, utf8EncodeChar_eq, List.cons_append, List.cons_append, List.cons_lt_cons_iff]
  rcases first_lt_or_eq lt (toNat_lt d) with less | ⟨same, follow, lead⟩
  · exact .inl (ofNat_lt_ofNat less (first_lt (toNat_lt d)))
  · rw [← same, ← follow]
    exact .inr ⟨rfl, continuation_lt lead lt x y⟩

theorem flatMap_utf8EncodeChar_lt {l m : List Char} (lt : l < m) :
    l.flatMap String.utf8EncodeChar < m.flatMap String.utf8EncodeChar := by
  induction lt with
  | @nil c m =>
      rw [List.flatMap_cons, utf8EncodeChar_eq]
      exact List.nil_lt_cons _ _
  | rel lt =>
      rw [List.flatMap_cons, List.flatMap_cons]
      exact utf8EncodeChar_lt lt _ _
  | cons _ ih =>
      rw [List.flatMap_cons, List.flatMap_cons]
      exact List.append_left_lt ih

end Utf8

theorem bytes_lt_iff {s t : String} : bytes s < bytes t ↔ s < t := by
  have lt : ∀ {s t : String}, s < t → bytes s < bytes t := by
    intro s t h
    rw [bytes_eq_flatMap, bytes_eq_flatMap]
    exact Utf8.flatMap_utf8EncodeChar_lt h
  refine ⟨fun h => ?_, lt⟩
  rcases Std.lt_trichotomy s t with less | rfl | more
  · exact less
  · exact absurd h (List.lt_irrefl _)
  · exact absurd h (List.lt_asymm (lt more))

theorem bytes_le_iff {s t : String} : bytes s ≤ bytes t ↔ s ≤ t := not_congr bytes_lt_iff

end JsonShape
