import JsonShape.Proofs.Entries
import JsonShape.Proofs.Number.Comparison
import JsonShape.Value.Equality
import Mathlib.Data.List.Sort

/-!
Equality of literals as a relation: the same form at every place, and numbers that count as equal. On values
whose objects name no member twice it is reflexive and symmetric, and without doubles it is equality up to the
order of members. It is transitive but for a double that stands between two different whole numbers.
-/

namespace JsonShape

namespace Entries

variable {α β : Type}

theorem mem_iff_lookup {l : Entries α} (distinct : (names l).Nodup) (e : String × α) :
    e ∈ l ↔ l.lookup e.1 = some e.2 :=
  ⟨lookup_of_mem distinct, mem_of_lookup⟩

theorem mem_names_iff_of_subset {l : Entries α} {m : Entries β} (distinct : (names l).Nodup)
    (subset : ∀ key ∈ names l, key ∈ names m) (length : l.length = m.length) (key : String) :
    key ∈ names l ↔ key ∈ names m := by
  have within : (names l).Subperm (names m) := List.subperm_of_subset distinct subset
  have short : (names m).length ≤ (names l).length := by
    rw [names, names, List.length_map, List.length_map, length]
  exact (within.perm_of_length_le short).mem_iff

theorem length_eq_of_mem_names_iff {l : Entries α} {m : Entries β} (hl : (names l).Nodup)
    (hm : (names m).Nodup) (h : ∀ key, key ∈ names l ↔ key ∈ names m) : l.length = m.length := by
  have perm : (names l).Perm (names m) := (List.perm_ext_iff_of_nodup hl hm).2 h
  simpa [names] using perm.length_eq

theorem Increasing.nodup {l : Entries α} (h : Increasing l) : (names l).Nodup := by
  refine List.Pairwise.imp (fun lt e => ?_) h
  subst e
  exact String.lt_irrefl _ lt

theorem Increasing.eq_of_lookup {l m : Entries α} (hl : Increasing l) (hm : Increasing m)
    (h : ∀ key, l.lookup key = m.lookup key) : l = m := by
  have perm : l.Perm m := by
    refine (List.perm_ext_iff_of_nodup (hl.nodup.of_map _) (hm.nodup.of_map _)).2 fun e => ?_
    rw [mem_iff_lookup hl.nodup, mem_iff_lookup hm.nodup, h]
  refine perm.eq_of_pairwise ?_ (List.pairwise_map.1 hl) (List.pairwise_map.1 hm)
  exact fun e d _ _ lt gt => absurd gt (String.lt_asymm lt)

end Entries

namespace Value

@[induction_eliminator]
theorem induction {motive : Value → Prop} (null : motive .null) (bool : ∀ b, motive (.bool b))
    (number : ∀ n, motive (.number n)) (string : ∀ s, motive (.string s))
    (array : ∀ items : List Value, (∀ v ∈ items, motive v) → motive (.array items))
    (object : ∀ members : Entries Value, (∀ e ∈ members, motive e.2) → motive (.object members))
    (v : Value) : motive v := by
  refine Value.rec (motive_1 := motive) (motive_2 := fun l => ∀ v ∈ l, motive v)
    (motive_3 := fun l => ∀ e ∈ l, motive e.2) (motive_4 := fun e => motive e.2)
    null bool number string array object ?_ ?_ ?_ ?_ ?_ v
  · exact fun v hv => absurd hv List.not_mem_nil
  · intro head tail ih ihs v hv
    obtain rfl | hv := List.mem_cons.1 hv
    · exact ih
    · exact ihs v hv
  · exact fun e he => absurd he List.not_mem_nil
  · intro head tail ih ihs e he
    obtain rfl | he := List.mem_cons.1 he
    · exact ih
    · exact ihs e he
  · exact fun name v ih => ih

theorem sameItems_iff (a b : List Value) :
    sameItems a b = true ↔ a.length = b.length ∧
      ∀ (i : Nat) v w, a[i]? = some v → b[i]? = some w → v.same w = true := by
  induction a generalizing b with
  | nil => cases b <;> simp [sameItems]
  | cons v a ih =>
      cases b with
      | nil => simp [sameItems]
      | cons w b =>
          rw [sameItems, Bool.and_eq_true, ih, List.length_cons, List.length_cons, Nat.add_right_cancel_iff]
          constructor
          · rintro ⟨head, length, tail⟩
            refine ⟨length, fun i x y hx hy => ?_⟩
            cases i with
            | zero =>
                cases hx
                cases hy
                exact head
            | succ i => exact tail i x y hx hy
          · rintro ⟨length, each⟩
            exact ⟨each 0 v w rfl rfl, length, fun i x y hx hy => each (i + 1) x y hx hy⟩

theorem sameMembers_iff (a b : Entries Value) :
    sameMembers a b = true ↔ ∀ e ∈ a, ∃ w, b.lookup e.1 = some w ∧ e.2.same w = true := by
  induction a with
  | nil => simp [sameMembers]
  | cons e a ih =>
      rw [sameMembers, Bool.and_eq_true, ih, List.forall_mem_cons]
      refine and_congr_left fun _ => ?_
      cases b.lookup e.1 <;> simp

section Same

variable (v : Value)

theorem same_null_iff : null.same v = true ↔ v = null := by
  cases v <;> simp [same]

theorem same_bool_iff (b : Bool) : (bool b).same v = true ↔ v = bool b := by
  cases v with
  | bool c => rw [same, beq_iff_eq, bool.injEq, eq_comm]
  | _ => simp [same]

theorem same_string_iff (s : String) : (string s).same v = true ↔ v = string s := by
  cases v with
  | string t => rw [same, beq_iff_eq, string.injEq, eq_comm]
  | _ => simp [same]

theorem same_number_iff (m : Number) :
    (number m).same v = true ↔ ∃ n, v = number n ∧ m.same n = true := by
  cases v <;> simp [same]

theorem same_array_iff (a : List Value) :
    (array a).same v = true ↔ ∃ b, v = array b ∧ a.length = b.length ∧
      ∀ (i : Nat) v w, a[i]? = some v → b[i]? = some w → v.same w = true := by
  cases v <;> simp [same, sameItems_iff]

theorem same_object_iff (a : Entries Value) :
    (object a).same v = true ↔ ∃ b, v = object b ∧ a.length = b.length ∧
      ∀ e ∈ a, ∃ w, b.lookup e.1 = some w ∧ e.2.same w = true := by
  cases v with
  | object b =>
      rw [same, Bool.and_eq_true, beq_iff_eq, sameMembers_iff]
      simp
  | _ => simp [same]

end Same

/-- A part of a value: the value itself, or what stands in it at some depth. -/
inductive Inside (part : Value) : Value → Prop where
  | self : Inside part part
  | item {v : Value} {items : List Value} (mem : v ∈ items) (h : Inside part v) :
      Inside part (.array items)
  | member {e : String × Value} {members : Entries Value} (mem : e ∈ members)
      (h : Inside part e.2) : Inside part (.object members)

section Inside

variable {part : Value}

theorem inside_scalar_iff {v : Value} (scalar : v.properties? = none) : Inside part v ↔ part = v := by
  constructor
  · rintro (_ | _ | _)
    · rfl
    · cases scalar
    · cases scalar
  · rintro rfl
    exact .self

@[simp] theorem inside_null_iff : Inside part null ↔ part = null := inside_scalar_iff rfl

@[simp] theorem inside_bool_iff {b : Bool} : Inside part (bool b) ↔ part = bool b := inside_scalar_iff rfl

@[simp] theorem inside_number_iff {n : Number} : Inside part (number n) ↔ part = number n :=
  inside_scalar_iff rfl

@[simp] theorem inside_string_iff {s : String} : Inside part (string s) ↔ part = string s :=
  inside_scalar_iff rfl

@[simp] theorem inside_array_iff {items : List Value} :
    Inside part (array items) ↔ part = array items ∨ ∃ v ∈ items, Inside part v := by
  constructor
  · rintro (_ | ⟨mem, h⟩)
    · exact .inl rfl
    · exact .inr ⟨_, mem, h⟩
  · rintro (rfl | ⟨v, mem, h⟩)
    · exact .self
    · exact .item mem h

@[simp] theorem inside_object_iff {members : Entries Value} :
    Inside part (object members) ↔ part = object members ∨ ∃ e ∈ members, Inside part e.2 := by
  constructor
  · rintro (_ | _ | ⟨mem, h⟩)
    · exact .inl rfl
    · exact .inr ⟨_, mem, h⟩
  · rintro (rfl | ⟨e, mem, h⟩)
    · exact .self
    · exact .member mem h

end Inside

def Distinct (v : Value) : Prop :=
  ∀ members : Entries Value, Inside (.object members) v → (Entries.names members).Nodup

def DoubleFree (v : Value) : Prop := ∀ d, ¬Inside (.number (.double d)) v

theorem Distinct.item {items : List Value} (h : (array items).Distinct) {v : Value} (mem : v ∈ items) :
    v.Distinct := fun _ inside => h _ (.item mem inside)

theorem Distinct.member {members : Entries Value} (h : (object members).Distinct) {e : String × Value}
    (mem : e ∈ members) : e.2.Distinct := fun _ inside => h _ (.member mem inside)

theorem Distinct.names {members : Entries Value} (h : (object members).Distinct) :
    (Entries.names members).Nodup := h members (.self)

theorem wellFormedItems_iff (items : List Value) :
    WellFormedItems items ↔ ∀ v ∈ items, v.WellFormed := by
  induction items with
  | nil => simp [WellFormedItems]
  | cons v items ih => rw [WellFormedItems, ih, List.forall_mem_cons]

theorem wellFormedMembers_iff (members : Entries Value) :
    WellFormedMembers members ↔ ∀ e ∈ members, e.2.WellFormed := by
  induction members with
  | nil => simp [WellFormedMembers]
  | cons e members ih => rw [WellFormedMembers, ih, List.forall_mem_cons]

theorem wellFormed_of_inside {part v : Value} (inside : Inside part v) (h : v.WellFormed) :
    part.WellFormed := by
  induction inside with
  | self => exact h
  | item mem _ ih => exact ih ((wellFormedItems_iff _).1 h _ mem)
  | member mem _ ih => exact ih ((wellFormedMembers_iff _).1 h.2 _ mem)

theorem distinct_of_wellFormed {v : Value} (h : v.WellFormed) : v.Distinct :=
  fun _ inside => (wellFormed_of_inside inside h).1.nodup

/-- Equal up to the order of members, where `rel` compares numbers. -/
inductive EqualBy (rel : Number → Number → Prop) : Value → Value → Prop where
  | null : EqualBy rel .null .null
  | bool (b : Bool) : EqualBy rel (.bool b) (.bool b)
  | number {m n : Number} (h : rel m n) : EqualBy rel (.number m) (.number n)
  | string (s : String) : EqualBy rel (.string s) (.string s)
  | array {a b : List Value} (length : a.length = b.length)
      (items : ∀ (i : Nat) v w, a[i]? = some v → b[i]? = some w → EqualBy rel v w) :
      EqualBy rel (.array a) (.array b)
  | object {a b : Entries Value} (names : ∀ key, key ∈ Entries.names a ↔ key ∈ Entries.names b)
      (members : ∀ key v w, a.lookup key = some v → b.lookup key = some w → EqualBy rel v w) :
      EqualBy rel (.object a) (.object b)

namespace EqualBy

variable {rel : Number → Number → Prop} {a b : Value}

theorem refl (h : ∀ n, rel n n) (v : Value) : EqualBy rel v v := by
  induction v with
  | null => exact .null
  | bool b => exact .bool b
  | number n => exact .number (h n)
  | string s => exact .string s
  | array items ih =>
      refine .array rfl fun i v w hv hw => ?_
      obtain rfl := Option.some.inj (hv.symm.trans hw)
      exact ih v (List.mem_of_getElem? hv)
  | object members ih =>
      refine .object (fun _ => Iff.rfl) fun key v w hv hw => ?_
      obtain rfl := Option.some.inj (hv.symm.trans hw)
      exact ih (key, v) (Entries.mem_of_lookup hv)

theorem symm (h : ∀ m n, rel m n → rel n m) (equal : EqualBy rel a b) : EqualBy rel b a := by
  induction equal with
  | null => exact .null
  | bool b => exact .bool b
  | number related => exact .number (h _ _ related)
  | string s => exact .string s
  | array length _ ih => exact .array length.symm fun i v w hv hw => ih i w v hw hv
  | object names _ ih => exact .object (fun key => (names key).symm) fun key v w hv hw => ih key w v hw hv

theorem imp {rel' : Number → Number → Prop}
    (h : ∀ m n, Inside (.number m) a → Inside (.number n) b → rel m n → rel' m n)
    (equal : EqualBy rel a b) : EqualBy rel' a b := by
  induction equal with
  | null => exact .null
  | bool b => exact .bool b
  | number related => exact .number (h _ _ (.self) (.self) related)
  | string s => exact .string s
  | array length _ ih =>
      refine .array length fun i v w hv hw => ih i v w hv hw fun m n hm hn => ?_
      exact h m n (.item (List.mem_of_getElem? hv) hm) (.item (List.mem_of_getElem? hw) hn)
  | object names _ ih =>
      refine .object names fun key v w hv hw => ih key v w hv hw fun m n hm hn => ?_
      exact h m n (.member (Entries.mem_of_lookup hv) hm) (.member (Entries.mem_of_lookup hw) hn)

theorem eq_of_wellFormed (equal : EqualBy Eq a b) (ha : a.WellFormed) (hb : b.WellFormed) : a = b := by
  induction equal with
  | null => rfl
  | bool b => rfl
  | number h => rw [h]
  | string s => rfl
  | @array a b length _ ih =>
      refine congrArg Value.array (List.ext_getElem length fun i hi hi' => ?_)
      have hv := List.getElem?_eq_getElem hi
      have hw := List.getElem?_eq_getElem hi'
      exact ih i _ _ hv hw
        (wellFormed_of_inside (.item (List.mem_of_getElem? hv) (.self)) ha)
        (wellFormed_of_inside (.item (List.mem_of_getElem? hw) (.self)) hb)
  | @object a b names _ ih =>
      refine congrArg Value.object (ha.1.eq_of_lookup hb.1 fun key => ?_)
      cases hv : a.lookup key with
      | none =>
          have absent := mt (names key).2 ((Entries.lookup_eq_none_iff a key).1 hv)
          exact ((Entries.lookup_eq_none_iff b key).2 absent).symm
      | some v =>
          obtain ⟨w, hw⟩ := (Entries.mem_names_iff b key).1
            ((names key).1 ((Entries.mem_names_iff a key).2 ⟨v, hv⟩))
          rw [hw, ih key v w hv hw
            (wellFormed_of_inside (.member (Entries.mem_of_lookup hv) (.self)) ha)
            (wellFormed_of_inside (.member (Entries.mem_of_lookup hw) (.self)) hb)]

end EqualBy

theorem same_iff_equalBy {a b : Value} (ha : a.Distinct) (hb : b.Distinct) :
    a.same b = true ↔ EqualBy (fun m n => m.same n = true) a b := by
  induction a generalizing b with
  | null =>
      rw [same_null_iff]
      constructor
      · rintro rfl
        exact .null
      · rintro ⟨⟩
        rfl
  | bool x =>
      rw [same_bool_iff]
      constructor
      · rintro rfl
        exact .bool x
      · rintro ⟨⟩
        rfl
  | string s =>
      rw [same_string_iff]
      constructor
      · rintro rfl
        exact .string s
      · rintro ⟨⟩
        rfl
  | number m =>
      rw [same_number_iff]
      constructor
      · rintro ⟨n, rfl, h⟩
        exact .number h
      · rintro (_ | _ | ⟨h⟩)
        exact ⟨_, rfl, h⟩
  | array items ih =>
      rw [same_array_iff]
      constructor
      · rintro ⟨others, rfl, length, each⟩
        refine .array length fun i v w hv hw => ?_
        have mem := List.mem_of_getElem? hv
        exact (ih v mem (ha.item mem) (hb.item (List.mem_of_getElem? hw))).1 (each i v w hv hw)
      · intro h
        cases h with
        | @array _ others length each =>
            refine ⟨others, rfl, length, fun i v w hv hw => ?_⟩
            have mem := List.mem_of_getElem? hv
            exact (ih v mem (ha.item mem) (hb.item (List.mem_of_getElem? hw))).2 (each i v w hv hw)
  | object members ih =>
      rw [same_object_iff]
      constructor
      · rintro ⟨others, rfl, length, each⟩
        have subset : ∀ key ∈ Entries.names members, key ∈ Entries.names others := by
          intro key hk
          obtain ⟨v, hv⟩ := (Entries.mem_names_iff members key).1 hk
          obtain ⟨w, hw, -⟩ := each (key, v) (Entries.mem_of_lookup hv)
          exact (Entries.mem_names_iff others key).2 ⟨w, hw⟩
        refine .object (Entries.mem_names_iff_of_subset ha.names subset length) fun key v w hv hw => ?_
        have mem := Entries.mem_of_lookup hv
        obtain ⟨w', hw', same⟩ := each (key, v) mem
        obtain rfl := Option.some.inj (hw.symm.trans hw')
        exact (ih (key, v) mem (ha.member mem) (hb.member (Entries.mem_of_lookup hw))).1 same
      · intro h
        cases h with
        | @object _ others names each =>
            refine ⟨others, rfl, Entries.length_eq_of_mem_names_iff ha.names hb.names names, ?_⟩
            intro e mem
            have hv := Entries.lookup_of_mem ha.names mem
            obtain ⟨w, hw⟩ := (Entries.mem_names_iff others e.1).1
              ((names e.1).1 ((Entries.mem_names_iff members e.1).2 ⟨e.2, hv⟩))
            exact ⟨w, hw, (ih e mem (ha.member mem) (hb.member (Entries.mem_of_lookup hw))).2
              (each e.1 e.2 w hv hw)⟩

theorem same_self {v : Value} (h : v.Distinct) : v.same v = true :=
  (same_iff_equalBy h h).2 (.refl Number.same_refl v)

theorem same_symm {a b : Value} (ha : a.Distinct) (hb : b.Distinct) : a.same b = b.same a := by
  rw [Bool.eq_iff_iff, same_iff_equalBy ha hb, same_iff_equalBy hb ha]
  have symm : ∀ m n : Number, m.same n = true → n.same m = true := fun m n h => by
    rwa [Number.same_comm]
  exact ⟨.symm symm, .symm symm⟩

/-- No number in one of the values is rounded to a number in the other. -/
def Unrounded (a b : Value) : Prop :=
  ∀ m n, Inside (.number m) a → Inside (.number n) b → ¬m.RoundsTo n ∧ ¬n.RoundsTo m

theorem same_iff_equalBy_denoted {a b : Value} (ha : a.Distinct) (hb : b.Distinct) (exact : a.Unrounded b) :
    a.same b = true ↔ EqualBy (fun m n => m.denoted = n.denoted) a b := by
  have law : ∀ m n, Inside (.number m) a → Inside (.number n) b → (m.same n = true ↔ m.denoted = n.denoted) :=
    fun m n hm hn => (Number.same_iff_denoted_iff m n).2 (exact m n hm hn)
  rw [same_iff_equalBy ha hb]
  exact ⟨.imp fun m n hm hn => (law m n hm hn).1, .imp fun m n hm hn => (law m n hm hn).2⟩

theorem same_iff_equalBy_eq {a b : Value} (ha : a.Distinct) (hb : b.Distinct) (freeA : a.DoubleFree)
    (freeB : b.DoubleFree) : a.same b = true ↔ EqualBy Eq a b := by
  rw [same_iff_equalBy ha hb]
  refine ⟨.imp fun m n hm hn same => ?_, .imp fun m n _ _ equal => equal ▸ Number.same_refl m⟩
  cases m with
  | double d => exact absurd hm (freeA d)
  | int m _ =>
      cases n with
      | double d => exact absurd hn (freeB d)
      | int n _ =>
          obtain rfl := (Number.same_int_int _ _).1 same
          rfl

theorem same_iff_eq {a b : Value} (ha : a.WellFormed) (hb : b.WellFormed) (freeA : a.DoubleFree)
    (freeB : b.DoubleFree) : a.same b = true ↔ a = b := by
  rw [same_iff_equalBy_eq (distinct_of_wellFormed ha) (distinct_of_wellFormed hb) freeA freeB]
  constructor
  · exact fun equal => equal.eq_of_wellFormed ha hb
  · rintro rfl
    exact .refl (fun _ => rfl) a

/-- Where the first value holds a double, the other two hold different whole numbers. -/
inductive Conflates : Value → Value → Value → Prop where
  | number {m k n : Number} (h : k.Conflates m n) : Conflates (.number k) (.number m) (.number n)
  | item {left mid right : List Value} {i : Nat} {u v w : Value} (hv : mid[i]? = some v)
      (hu : left[i]? = some u) (hw : right[i]? = some w) (h : Conflates v u w) :
      Conflates (.array mid) (.array left) (.array right)
  | member {left mid right : Entries Value} {e : String × Value} {v w : Value}
      (hv : mid.lookup e.1 = some v) (he : e ∈ left) (hw : right.lookup e.1 = some w)
      (h : Conflates v e.2 w) : Conflates (.object mid) (.object left) (.object right)

theorem not_conflates_number {v : Value} (n : Number) : ¬v.Conflates (.number n) (.number n) := by
  rintro (⟨⟨ne⟩⟩)
  exact ne rfl

theorem same_trans_iff {a b c : Value} (hab : a.same b = true) (hbc : b.same c = true) :
    a.same c = true ↔ ¬b.Conflates a c := by
  induction a generalizing b c with
  | null =>
      obtain rfl := (same_null_iff b).1 hab
      exact iff_of_true hbc nofun
  | bool x =>
      obtain rfl := (same_bool_iff b x).1 hab
      exact iff_of_true hbc nofun
  | string s =>
      obtain rfl := (same_string_iff b s).1 hab
      exact iff_of_true hbc nofun
  | number m =>
      obtain ⟨k, rfl, hmk⟩ := (same_number_iff b m).1 hab
      obtain ⟨n, rfl, hkn⟩ := (same_number_iff c k).1 hbc
      refine (Number.same_trans_iff hmk hkn).trans (not_congr ⟨.number, fun h => ?_⟩)
      cases h with
      | number h => exact h
  | array items ih =>
      obtain ⟨mid, rfl, length, each⟩ := (same_array_iff b items).1 hab
      obtain ⟨last, rfl, length', each'⟩ := (same_array_iff c mid).1 hbc
      have step : ∀ (i : Nat) u v w, items[i]? = some u → mid[i]? = some v → last[i]? = some w →
          (u.same w = true ↔ ¬v.Conflates u w) := fun i u v w hu hv hw =>
        ih u (List.mem_of_getElem? hu) (each i u v hu hv) (each' i v w hv hw)
      rw [same_array_iff]
      constructor
      · rintro ⟨_, ⟨⟩, -, same⟩ (_ | ⟨hv, hu, hw, h⟩)
        exact (step _ _ _ _ hu hv hw).1 (same _ _ _ hu hw) h
      · intro apart
        refine ⟨last, rfl, length.trans length', fun i u w hu hw => ?_⟩
        have hi : i < mid.length := length ▸ (List.getElem?_eq_some_iff.1 hu).1
        have hv := List.getElem?_eq_getElem hi
        exact (step i u _ w hu hv hw).2 fun h => apart (.item hv hu hw h)
  | object members ih =>
      obtain ⟨mid, rfl, length, each⟩ := (same_object_iff b members).1 hab
      obtain ⟨last, rfl, length', each'⟩ := (same_object_iff c mid).1 hbc
      have step : ∀ e ∈ members, ∀ v w, mid.lookup e.1 = some v → last.lookup e.1 = some w →
          (e.2.same w = true ↔ ¬v.Conflates e.2 w) := by
        intro e mem v w hv hw
        obtain ⟨v', hv', left⟩ := each e mem
        obtain ⟨w', hw', right⟩ := each' (e.1, v) (Entries.mem_of_lookup hv)
        obtain rfl := Option.some.inj (hv.symm.trans hv')
        obtain rfl := Option.some.inj (hw.symm.trans hw')
        exact ih e mem left right
      rw [same_object_iff]
      constructor
      · rintro ⟨_, ⟨⟩, -, same⟩ (_ | _ | ⟨hv, mem, hw, h⟩)
        obtain ⟨w', hw', equal⟩ := same _ mem
        obtain rfl := Option.some.inj (hw.symm.trans hw')
        exact (step _ mem _ _ hv hw).1 equal h
      · intro apart
        refine ⟨last, rfl, length.trans length', fun e mem => ?_⟩
        obtain ⟨v, hv, -⟩ := each e mem
        obtain ⟨w, hw, -⟩ := each' (e.1, v) (Entries.mem_of_lookup hv)
        exact ⟨w, hw, (step e mem v w hv hw).2 fun h => apart (.member hv mem hw h)⟩

end Value

end JsonShape
