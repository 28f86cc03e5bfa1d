import JsonShape.Proofs.Value.Equality
import JsonShape.Proofs.Views

/-!
Schemas of literals. `exact` and `oneOf` accept what counts as equal to their literals, in both views. So every
value is accepted as a literal of itself, and two values accept one another; but numbers that are rounded may
count as equal without being so.
-/

namespace JsonShape.Schema

def Accepts (schema : Schema) (c : Context) (slot : Slot) : Prop :=
  (∃ r, schema.validate c slot = .ok r) ∧ ∃ t, schema.interpret c slot = .ok t

theorem accepts_iff (schema : Schema) (c : Context) (slot : Slot) :
    schema.Accepts c slot ↔ ∃ r, schema.validate c slot = .ok r := by
  refine ⟨And.left, fun h => ⟨h, ?_⟩⟩
  obtain ⟨r, hr⟩ := h
  obtain ⟨t, ht, -⟩ := interpret_of_validate hr
  exact ⟨t, ht⟩

section Literals

variable {c : Context} {v : Value}

theorem accepts_exact_iff {expected : Value} :
    (exact expected).Accepts c (some v) ↔ v.same expected = true := by
  rw [accepts_iff, validate_exact, Checks.exactly]
  cases v.same expected <;> simp [Except.map]

theorem accepts_oneOf_iff {allowed : List Value} :
    (oneOf allowed).Accepts c (some v) ↔ ∃ expected ∈ allowed, v.same expected = true := by
  rw [accepts_iff, validate_oneOf, Checks.among, ← List.any_eq_true]
  cases allowed.any v.same <;> simp [Except.map]

end Literals

/-- Every value counts as equal to itself and two values either way round, and so a value is accepted as a
literal of itself and two values accept one another. Without doubles, what counts as equal is equal up to the
order of members, which is to be equal when both list their members in increasing order. Doubles, and all
numbers of values in which none is rounded to one of the other value, are compared as the numbers they denote. -/
theorem literals_accept_one_another {a b : Value} (ha : a.Distinct) (hb : b.Distinct) :
    a.same a = true ∧ a.same b = b.same a ∧
      (a.DoubleFree → b.DoubleFree →
        (a.same b = true ↔ Value.EqualBy Eq a b) ∧
          (a.WellFormed → b.WellFormed → (a.same b = true ↔ a = b))) ∧
      (∀ d e : Double, (Value.number (.double d)).same (.number (.double e)) = true ↔
        (Number.double d).denoted = (Number.double e).denoted) ∧
      (a.Unrounded b → (a.same b = true ↔ Value.EqualBy (fun m n => m.denoted = n.denoted) a b)) ∧
      ∀ c : Context,
        (exact a).Accepts c (some a) ∧
          (∀ allowed, a ∈ allowed → (oneOf allowed).Accepts c (some a)) ∧
          ((exact a).Accepts c (some b) ↔ (exact b).Accepts c (some a)) := by
  have self : a.same a = true := Value.same_self ha
  have swap : a.same b = b.same a := Value.same_symm ha hb
  refine ⟨self, swap, fun freeA freeB => ⟨?_, fun wa wb => ?_⟩, fun d e => ?_,
    Value.same_iff_equalBy_denoted ha hb, fun c => ⟨?_, fun allowed mem => ?_, ?_⟩⟩
  · exact Value.same_iff_equalBy_eq ha hb freeA freeB
  · exact Value.same_iff_eq wa wb freeA freeB
  · rw [Number.denoted_double_eq_iff]
    exact Number.same_double_right (.double d) e
  · exact accepts_exact_iff.2 self
  · exact accepts_oneOf_iff.2 ⟨a, mem, self⟩
  · rw [accepts_exact_iff, accepts_exact_iff, swap]

theorem literals_accept_one_another_reordered :
    let count : String × Value := ("count", .number (.int 18446744073709551615 (by decide)))
    let a : Value := .object [count, ("flags", .array [.bool true, .null])]
    let b : Value := .object [("flags", .array [.bool true, .null]), count]
    let shorter : Value := .object [count, ("flags", .array [.bool true])]
    let zero : Value := .array [.number (.double (.zero false))]
    let minusZero : Value := .array [.number (.double (.zero true))]
    (a.Distinct ∧ b.Distinct ∧ shorter.Distinct) ∧
      (a.DoubleFree ∧ b.DoubleFree ∧ shorter.DoubleFree) ∧ (a.WellFormed ∧ shorter.WellFormed) ∧
      Value.EqualBy Eq a b ∧ (exact a).Accepts {} (some b) ∧ (exact b).Accepts {} (some a) ∧
      (oneOf [.null, a]).Accepts {} (some a) ∧ a.same shorter = false ∧
      zero.Unrounded minusZero ∧ zero.same minusZero = true ∧
      Value.EqualBy (fun m n => m.denoted = n.denoted) zero minusZero := by
  intro count a b shorter zero minusZero
  have distinct : a.Distinct ∧ b.Distinct ∧ shorter.Distinct := by
    simp [a, b, shorter, count, Value.Distinct, Entries.names]
  have free : a.DoubleFree ∧ b.DoubleFree ∧ shorter.DoubleFree := by
    simp [a, b, shorter, count, Value.DoubleFree]
  have increasing : ["count", "flags"].Pairwise (· < ·) := by decide
  have wellFormed : a.WellFormed ∧ shorter.WellFormed :=
    ⟨⟨increasing, trivial, ⟨trivial, trivial, trivial⟩, trivial⟩,
      increasing, trivial, ⟨trivial, trivial⟩, trivial⟩
  have accepts : (exact a).Accepts {} (some b) := accepts_exact_iff.2 (by decide +kernel)
  obtain ⟨-, swap, reordered, -, -, views⟩ := literals_accept_one_another distinct.1 distinct.2.1
  obtain ⟨-, -, shortened, -⟩ := literals_accept_one_another distinct.1 distinct.2.2
  obtain ⟨-, listed, symm⟩ := views {}
  have distinctZeros : zero.Distinct ∧ minusZero.Distinct := by simp [zero, minusZero, Value.Distinct]
  have unrounded : zero.Unrounded minusZero := by
    simp [zero, minusZero, Value.Unrounded, Number.not_double_roundsTo]
  obtain ⟨-, -, -, -, denoted, -⟩ := literals_accept_one_another distinctZeros.1 distinctZeros.2
  have zeros : zero.same minusZero = true := by decide +kernel
  refine ⟨distinct, free, wellFormed, ?_, accepts, (symm.1 accepts), listed [.null, a] (by simp), ?_,
    unrounded, zeros, (denoted unrounded).1 zeros⟩
  · exact (reordered free.1 free.2.1).1.1 (swap.trans (accepts_exact_iff.1 accepts))
  · rw [Bool.eq_false_iff, ne_eq, (shortened free.1 free.2.2).2 wellFormed.1 wellFormed.2]
    simp [a, shorter]

/-- Numbers that are equal count as equal, and numbers that count as equal are equal unless one is rounded to
the other. What the literal of a value accepts, the literals that accept that value accept too, unless that
value has a double in place of two different whole numbers. -/
theorem literals_equal_but_for_rounding (a b : Number) (c : Context) (u v w : Value) :
    (a.denoted = b.denoted → (Value.number a).same (.number b) = true) ∧
      (((Value.number a).same (.number b) = true ↔ a.denoted = b.denoted) ↔
        ¬a.RoundsTo b ∧ ¬b.RoundsTo a) ∧
      ((exact u).Accepts c (some v) → (exact v).Accepts c (some w) →
        ((exact u).Accepts c (some w) ↔ ¬v.Conflates w u)) := by
  refine ⟨fun equal => (Number.same_cases a b).2 (.inl equal), Number.same_iff_denoted_iff a b, ?_⟩
  intro huv hvw
  rw [accepts_exact_iff] at huv hvw ⊢
  exact Value.same_trans_iff hvw huv

theorem literals_equal_but_for_rounding_twice :
    let whole : Value := .number (.int 9007199254740993 (by decide))
    let double : Value := .number (.double (.ofWhole 9007199254740992 (by decide)))
    (exact (.array [whole])).Accepts {} (some (.array [double])) ∧
      (exact (.array [double])).Accepts {} (some (.array [whole])) ∧
      ¬(Value.array [double]).Conflates (.array [whole]) (.array [whole]) ∧
      (exact (.array [whole])).Accepts {} (some (.array [whole])) := by
  intro whole double
  have one : (exact (.array [whole])).Accepts {} (some (.array [double])) :=
    accepts_exact_iff.2 (by decide +kernel)
  have two : (exact (.array [double])).Accepts {} (some (.array [whole])) :=
    accepts_exact_iff.2 (by decide +kernel)
  have alike : ¬(Value.array [double]).Conflates (.array [whole]) (.array [whole]) := by
    rintro (_ | ⟨-, hu, hw, h⟩)
    obtain rfl := Option.some.inj (hu.symm.trans hw)
    rw [List.mem_singleton.1 (List.mem_of_getElem? hu)] at h
    exact Value.not_conflates_number _ h
  have law := literals_equal_but_for_rounding (.int 9007199254740993 (by decide))
    (.double (.ofWhole 9007199254740992 (by decide))) {} (.array [whole]) (.array [double]) (.array [whole])
  exact ⟨one, two, alike, (law.2.2 one two).2 alike⟩

/-- A literal accepts another number, and the literal of that number one that the first refuses. -/
theorem rounded_literals_accept_others :
    let beyond : Number := .int 9007199254740993 (by decide)
    let double : Number := .double (.ofWhole 9007199254740992 (by decide))
    let whole : Number := .int 9007199254740992 (by decide)
    (Value.number double).same (.number beyond) = true ∧ double.denoted ≠ beyond.denoted ∧
      (exact (.number beyond)).Accepts {} (some (.number double)) ∧
      (exact (.number double)).Accepts {} (some (.number whole)) ∧
      ¬(exact (.number beyond)).Accepts {} (some (.number whole)) := by
  intro beyond double whole
  refine ⟨by decide +kernel, fun equal => ?_, accepts_exact_iff.2 (by decide +kernel),
    accepts_exact_iff.2 (by decide +kernel), fun accepts => ?_⟩
  · exact absurd ((Number.denoted_int_eq_double_iff _ _).1 equal.symm) (by decide +kernel)
  · exact absurd (accepts_exact_iff.1 accepts) (by decide +kernel)

end JsonShape.Schema
