import JsonShape.Proofs.Revalidation
import JsonShape.Proofs.SideBySide

/-!
Both views of an output. Where the schemas of each `and` and `or` keep free of records with declared fields
and of references, they change nothing, and so an output has the value view and the typed view of the value
that it was made from.
-/

namespace JsonShape.Schema

variable {c : Context} {slot r : Slot}

structure Plain (schema : Schema) : Prop where
  fieldFree : ∀ declarations, schema.Contains (record declarations) → declarations = []
  refFree : ∀ name, ¬schema.Contains (ref name)

theorem plain_of_leaf {schema : Schema} (outer : schema.outerParts = []) (inner : schema.innerParts = [])
    (notRef : ∀ name, schema ≠ ref name) (notRecord : ∀ declarations, schema ≠ record declarations) :
    schema.Plain where
  fieldFree declarations h :=
    absurd rfl (forall_contains_leaf (motive := fun s => ∀ d, s ≠ record d) notRecord outer inner _ h
      declarations)
  refFree name h :=
    absurd rfl (forall_contains_leaf (motive := fun s => ∀ n, s ≠ ref n) notRef outer inner _ h name)

/-- Every schema of an `and` or an `or` that stands in the schema is plain. -/
def KeepsApart (schema : Schema) : Prop :=
  ∀ first second, schema.Contains (and first second) ∨ schema.Contains (or first second) →
    first.Plain ∧ second.Plain

theorem keepsApart_of_parts {whole : Schema}
    (self : ∀ first second, whole = and first second ∨ whole = or first second →
      first.Plain ∧ second.Plain)
    (outer : ∀ part ∈ whole.outerParts, part.KeepsApart)
    (inner : ∀ part ∈ whole.innerParts, part.KeepsApart) : whole.KeepsApart := by
  have each : ∀ schema, whole.Contains schema → ∀ first second,
      schema = and first second ∨ schema = or first second → first.Plain ∧ second.Plain := by
    refine forall_contains self ?_ ?_
    · rintro part isPart schema inside first second (rfl | rfl)
      · exact outer part isPart first second (.inl inside)
      · exact outer part isPart first second (.inr inside)
    · rintro part isPart schema inside first second (rfl | rfl)
      · exact inner part isPart first second (.inl inside)
      · exact inner part isPart first second (.inr inside)
  exact fun first second h => h.elim (fun inside => each _ inside first second (.inl rfl))
    fun inside => each _ inside first second (.inr rfl)

theorem keepsApart_of_leaf {schema : Schema} (outer : schema.outerParts = [])
    (inner : schema.innerParts = []) (notAnd : ∀ first second, schema ≠ and first second)
    (notOr : ∀ first second, schema ≠ or first second) : schema.KeepsApart :=
  keepsApart_of_parts
    (fun first second h => h.elim (fun he => absurd he (notAnd first second))
      fun he => absurd he (notOr first second))
    (by simp [outer]) (by simp [inner])

theorem not_mayReread_of_plain {bound? : String → Option Schema} {schema : Schema}
    (plain : schema.Plain) : ¬MayReread bound? schema := by
  rintro ⟨declarations, declared, inside⟩
  exact declared (plain.fieldFree declarations (contains_of_includes_of_refFree inside plain.refFree))

/-- No schema of an `and` or an `or` that the schema includes may read an array as an object. -/
def Still (bound? : String → Option Schema) (schema : Schema) : Prop :=
  ∀ first second, Includes bound? schema (and first second) ∨ Includes bound? schema (or first second) →
    ¬MayReread bound? first ∧ ¬MayReread bound? second

theorem still_of_keepsApart {bound? : String → Option Schema} {schema : Schema}
    (apart : schema.KeepsApart)
    (bound : ∀ name target, bound? name = some target → target.KeepsApart) : Still bound? schema := by
  intro first second inside
  have plain : first.Plain ∧ second.Plain := by
    obtain inside | inside := inside
    · obtain here | ⟨name, target, isBound, there⟩ := contains_of_includes inside
      · exact apart first second (.inl here)
      · exact bound name target isBound first second (.inl there)
    · obtain here | ⟨name, target, isBound, there⟩ := contains_of_includes inside
      · exact apart first second (.inr here)
      · exact bound name target isBound first second (.inr there)
  exact ⟨not_mayReread_of_plain plain.1, not_mayReread_of_plain plain.2⟩

namespace Still

variable {bound? : String → Option Schema} {whole part : Schema}

theorem concordant (still : Still bound? whole) : Concordant bound? whole :=
  ⟨fun first second inside => (still first second (.inl inside)).2,
    fun first second inside => .inl (still first second (.inr inside)).1⟩

theorem mono (still : Still bound? whole)
    (sub : ∀ schema, Includes bound? part schema → Includes bound? whole schema) : Still bound? part :=
  fun first second inside => still first second (inside.imp (sub _) (sub _))

theorem outer (still : Still bound? whole) (isPart : part ∈ whole.outerParts) : Still bound? part :=
  still.mono fun _ inside => .outer isPart inside

theorem inner (still : Still bound? whole) (isPart : part ∈ whole.innerParts) : Still bound? part :=
  still.mono fun _ inside => .inner isPart inside

theorem again {schema : Schema} (still : Still c.bound? schema) (h : schema.validate c slot = .ok r) :
    schema.validate c r = .ok r :=
  again_of_validate (fun conflict => not_concordant_of_conflicts conflict still.concordant) h

end Still

theorem interpret_again_of_value {schema : Schema} (still : Still c.bound? schema)
    (view : ∀ slot, schema.interpret c slot =
      (schema.validate c slot).map fun r => .value (r.getD .null))
    (h : schema.validate c slot = .ok r) : schema.interpret c r = schema.interpret c slot := by
  rw [view, view, still.again h, h]

theorem interpret_again_of_unchanged {schema : Schema} (same : ¬MayReread c.bound? schema)
    (h : schema.validate c slot = .ok r) : schema.interpret c r = schema.interpret c slot := by
  rw [unchanged_of_validate same h]

theorem interpret_again_of_below
    (below : ∀ child, c.descend = .ok child → ∀ (schema : Schema) slot r, Still child.bound? schema →
      schema.validate child slot = .ok r → schema.interpret child r = schema.interpret child slot)
    (schema : Schema) (still : Still c.bound? schema) (h : schema.validate c slot = .ok r) :
    schema.interpret c r = schema.interpret c slot := by
  induction schema generalizing slot r with
  | string | number | boolean | any | exact | oneOf | keyOf =>
      exact interpret_again_of_unchanged (not_mayReread_of_leaf rfl rfl (by simp) (by simp)) h
  | array item =>
      obtain ⟨items, new, rfl, rfl, ⟨rfl, rfl⟩ | ⟨child, nonempty, hc, hn⟩⟩ :=
        validate_array_eq_ok_iff.1 h
      · rfl
      · obtain ⟨length, parts⟩ := validateItems_eq_ok_iff.1 hn
        have nonempty' := ne_nil_of_validateItems hn nonempty
        have stillItem : Still child.bound? item := by
          rw [Context.bound?_of_descend hc]
          exact still.inner (List.mem_singleton_self item)
        have each : List.Forall₂ (fun w v => item.interpret child (some w) = item.interpret child (some v))
            new items := by
          refine List.forall₂_iff_get.2 ⟨length, fun i hi hi' => ?_⟩
          obtain ⟨s, hs, hn'⟩ := parts i _ (List.getElem?_eq_getElem hi')
          obtain ⟨u, rfl, -⟩ := present_of_validate hs
          obtain rfl : new[i] = u := Option.some.inj ((List.getElem?_eq_getElem hi).symm.trans hn')
          exact below child hc item _ _ stillItem hs
        have same : interpretItems (fun schema slot => schema.interpret child slot) item new =
            interpretItems (fun schema slot => schema.interpret child slot) item items := by
          refine Outcome.mapM_eq_of_forall₂ ((forall₂_zipIdx each 0).imp ?_)
          rintro ⟨w, i⟩ ⟨v, j⟩ ⟨view, rfl⟩
          exact congrArg (Outcome.under (.index i)) view
        rw [interpret_array_of_ne_nil hc nonempty, interpret_array_of_ne_nil hc nonempty', same]
  | record declarations => exact interpret_again_of_value still (interpret_record c · declarations) h
  | and first second _ _ =>
      have parts := still first second (.inl (.self _))
      obtain ⟨narrowed, hf, hs⟩ := validate_and_eq_ok_iff.1 h
      obtain rfl := unchanged_of_validate parts.1 hf
      rw [unchanged_of_validate parts.2 hs]
  | or first second _ _ =>
      have parts := still first second (.inr (.self _))
      obtain hf | ⟨-, -, hs⟩ := validate_or_eq_ok_iff.1 h
      · rw [unchanged_of_validate parts.1 hf]
      · rw [unchanged_of_validate parts.2 hs]
  | optional inner ih =>
      rw [validate_optional] at h
      cases slot with
      | none =>
          cases h
          rfl
      | some v =>
          have again := ih (still.outer (List.mem_singleton_self inner)) h
          obtain ⟨w, rfl, -⟩ := present_of_validate h
          rw [interpret_optional, interpret_optional]
          exact congrArg (Except.map Typed.some) again
  | nullable inner ih =>
      by_cases hn : slot = some .null
      · rw [hn, validate_nullable_null] at h
        cases h
        rw [hn]
      · rw [validate_nullable c inner hn] at h
        rw [interpret_nullable c inner hn,
          interpret_nullable c inner (ne_null_of_kept (keeps_of_validate h) hn),
          ih (still.outer (List.mem_singleton_self inner)) h]
  | union discriminant declarations _ =>
      exact interpret_again_of_value still (interpret_union c · discriminant declarations) h
  | ref name => exact interpret_again_of_value still (interpret_ref c · name) h
  | stored schema _ => exact interpret_again_of_value still (interpret_stored c · schema) h

theorem Still.interpret_again {schema : Schema} (still : Still c.bound? schema)
    (h : schema.validate c slot = .ok r) : schema.interpret c r = schema.interpret c slot := by
  induction c using Context.induction generalizing schema slot r with
  | step c below =>
      exact interpret_again_of_below (fun child hc _ _ _ still h => below child hc still h) schema still h

/-- Where records with declared fields and references are kept out of `and` and `or`, both in the schema and
in all that names are bound to, an output comes back as it is, and with the typed view that the value had
from which it was made. -/
theorem output_keeps_both_views {schema : Schema} {c : Context} (apart : schema.KeepsApart)
    (bound : ∀ name target, c.bound? name = some target → target.KeepsApart) {v : Value} {r : Slot}
    (h : schema.validate c (some v) = .ok r) :
    ∃ w t, r = some w ∧ schema.validate c (some w) = .ok (some w) ∧
      schema.interpret c (some v) = .ok t ∧ schema.interpret c (some w) = .ok t := by
  have still := still_of_keepsApart apart bound
  obtain ⟨w, rfl, -⟩ := present_of_validate h
  obtain ⟨t, ht, -⟩ := interpret_of_validate h
  exact ⟨w, t, rfl, still.again h, ht, (still.interpret_again h).trans ht⟩

theorem output_keeps_both_views_boxes :
    let box := record [("0", or string boolean)]
    let c : Context := { registry := some (Registry.empty.registerAll [("Box", box)]), maxDepth := 3 }
    (array (nullable (ref "Box"))).KeepsApart ∧
    (∀ name target, c.bound? name = some target → target.KeepsApart) ∧
    (array (nullable (ref "Box"))).validate c (some (.array [.null, .array [.bool true]])) =
      .ok (some (.array [.null, .object [("0", .bool true)]])) ∧
    (array (nullable (ref "Box"))).interpret c (some (.array [.null, .object [("0", .bool true)]])) =
      .ok (.array [.none, .some (.value (.object [("0", .bool true)]))]) := by
  intro box c
  have apart : (array (nullable (ref "Box"))).KeepsApart := by
    refine keepsApart_of_parts (by simp) (by simp [outerParts]) fun part isPart => ?_
    obtain rfl := List.mem_singleton.1 isPart
    refine keepsApart_of_parts (by simp) (fun part isPart => ?_) (by simp [innerParts])
    obtain rfl := List.mem_singleton.1 isPart
    exact keepsApart_of_leaf rfl rfl (by simp) (by simp)
  have plain : string.Plain ∧ boolean.Plain :=
    ⟨plain_of_leaf rfl rfl (by simp) (by simp), plain_of_leaf rfl rfl (by simp) (by simp)⟩
  have bound : ∀ name target, c.bound? name = some target → target.KeepsApart := by
    intro name target h
    have hl : ([("Box", box)] : Entries Schema).lookup name = some target := h
    obtain ⟨-, rfl⟩ : name = "Box" ∧ target = box := by simpa using Entries.mem_of_lookup hl
    refine keepsApart_of_parts (by simp [box]) (by simp [box, outerParts]) fun part isPart => ?_
    obtain rfl := List.mem_singleton.1 isPart
    refine keepsApart_of_parts ?_ ?_ (by simp [innerParts])
    · rintro first second (h | h)
      · cases h
      · cases h
        exact plain
    · simp only [outerParts, List.mem_cons, List.not_mem_nil, or_false, forall_eq_or_imp, forall_eq]
      exact ⟨keepsApart_of_leaf rfl rfl (by simp) (by simp), keepsApart_of_leaf rfl rfl (by simp) (by simp)⟩
  have run : (array (nullable (ref "Box"))).validate c (some (.array [.null, .array [.bool true]])) =
      .ok (some (.array [.null, .object [("0", .bool true)]])) := rfl
  have typed : (array (nullable (ref "Box"))).interpret c (some (.array [.null, .array [.bool true]])) =
      .ok (.array [.none, .some (.value (.object [("0", .bool true)]))]) := rfl
  obtain ⟨w, t, hw, -, ht, again⟩ := output_keeps_both_views apart bound run
  cases hw
  rw [typed] at ht
  cases ht
  exact ⟨apart, bound, run, again⟩

end JsonShape.Schema
