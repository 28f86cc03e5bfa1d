import JsonShape.Proofs.Entries
import JsonShape.Validation.Typed

/-!
The two inductions behind statements about validation. `Schema.induction` follows the tree of a schema,
with a hypothesis for every declared field and variant; `Context.induction` follows the levels that a
context has left, and covers what a schema reaches through `array`, `record` and `ref`.
-/

namespace JsonShape

@[induction_eliminator]
theorem Schema.induction {motive : Schema → Prop}
    (string : motive .string) (number : motive .number) (boolean : motive .boolean)
    (any : motive .any) (exact : ∀ expected, motive (.exact expected))
    (oneOf : ∀ allowed, motive (.oneOf allowed)) (keyOf : ∀ keys, motive (.keyOf keys))
    (array : ∀ item, motive item → motive (.array item))
    (record : ∀ declarations, (∀ d ∈ declarations, motive d.2) → motive (.record declarations))
    (and : ∀ first second, motive first → motive second → motive (.and first second))
    (or : ∀ first second, motive first → motive second → motive (.or first second))
    (optional : ∀ inner, motive inner → motive (.optional inner))
    (nullable : ∀ inner, motive inner → motive (.nullable inner))
    (union : ∀ discriminant declarations, (∀ d ∈ declarations, motive d.2) →
      motive (.union discriminant declarations))
    (ref : ∀ name, motive (.ref name)) (stored : ∀ schema, motive schema → motive (.stored schema))
    (schema : Schema) : motive schema := by
  refine Schema.rec (motive_1 := motive) (motive_2 := fun l => ∀ d ∈ l, motive d.2)
    (motive_3 := fun d => motive d.2) string number boolean any exact oneOf keyOf array record
    and or optional nullable union ref stored ?_ ?_ ?_ schema
  · intro d hd
    cases hd
  · intro head tail ih ihs d hd
    cases hd with
    | head => exact ih
    | tail _ hd => exact ihs d hd
  · intro name schema ih
    exact ih

namespace Context

@[simp] theorem descend_eq_ok_iff (c child : Context) :
    c.descend = .ok child ↔ c.depth < c.maxDepth ∧ child = { c with depth := c.depth + 1 } := by
  unfold descend
  split
  next h => simp [h, eq_comm]
  next h => simp [h]

@[simp] theorem descend_eq_error_iff (c : Context) (f : Failure) :
    c.descend = .error f ↔ c.maxDepth ≤ c.depth ∧ f = .tooDeep c.maxDepth := by
  unfold descend
  split
  next h => simp [Nat.not_le.2 h]
  next h => simp [Nat.not_lt.1 h, eq_comm]

theorem remaining_of_descend {c child : Context} (h : c.descend = .ok child) :
    c.remaining = child.remaining + 1 := by
  obtain ⟨hlt, rfl⟩ := (descend_eq_ok_iff c child).1 h
  simp only [remaining]
  omega

theorem induction {motive : Context → Prop}
    (step : ∀ c, (∀ child, c.descend = .ok child → motive child) → motive c) (c : Context) :
    motive c := by
  have levels : ∀ n, ∀ c : Context, c.remaining = n → motive c := by
    intro n
    induction n with
    | zero =>
        intro c hc
        refine step c fun child h => ?_
        have hr := remaining_of_descend h
        omega
    | succ n ih =>
        intro c hc
        refine step c fun child h => ih child ?_
        have hr := remaining_of_descend h
        omega
  exact levels c.remaining c rfl

end Context

end JsonShape
