import JsonShape.Proofs.Rereading
import JsonShape.Proofs.Views

/-!
Validating once more what a validation returned. An output may be refused by the schema that made it, where
the second schema of an `and` reads as an object what the first one takes for an array. Where the two
schemas of no `and` and no `or` are in conflict, the output comes back as it is; schemas that keep records
and references out of them also give it the same typed view.
-/

namespace JsonShape.Schema

open Value (ArrayFree Keeps Refines)

variable {c : Context} {slot r : Slot}

/-- The first schema of this `and` refuses the array that the second one has read as an object. -/
theorem and_refuses_own_output :
    (and (array any) (record [("0", any)])).validate {} (some (.array [.bool true])) =
      .ok (some (.object [("0", .bool true)])) ∧
    (and (array any) (record [("0", any)])).validate {} (some (.object [("0", .bool true)])) =
      .error ⟨.root, .invalidType, .wrongKind "array" .object⟩ ∧
    ¬∀ (schema : Schema) (c : Context) (v w : Value), schema.validate c (some v) = .ok (some w) →
      schema.validate c (some w) = .ok (some w) := by
  have first : (and (array any) (record [("0", any)])).validate {} (some (.array [.bool true])) =
      .ok (some (.object [("0", .bool true)])) := rfl
  have second : (and (array any) (record [("0", any)])).validate {}
      (some (.object [("0", .bool true)])) = .error ⟨.root, .invalidType, .wrongKind "array" .object⟩ :=
    rfl
  refine ⟨first, second, fun law => ?_⟩
  have again := law _ _ _ _ first
  rw [second] at again
  cases again

/-- What the first schema makes of its slot rests on what the second one makes of its slot. -/
inductive RestsOn : Context → Schema → Slot → Context → Schema → Slot → Prop where
  | andFirst {c : Context} {first second : Schema} {slot : Slot} :
      RestsOn c (and first second) slot c first slot
  | andSecond {c : Context} {first second : Schema} {slot narrowed : Slot}
      (run : first.validate c slot = .ok narrowed) :
      RestsOn c (and first second) slot c second narrowed
  | orFirst {c : Context} {first second : Schema} {slot r : Slot} (run : first.validate c slot = .ok r) :
      RestsOn c (or first second) slot c first slot
  | orSecond {c : Context} {first second : Schema} {slot : Slot} {f : Failure}
      (refused : first.validate c slot = .error f) : RestsOn c (or first second) slot c second slot
  | optional {c : Context} {inner : Schema} {v : Value} :
      RestsOn c (optional inner) (some v) c inner (some v)
  | nullable {c : Context} {inner : Schema} {slot : Slot} (ne : slot ≠ some .null) :
      RestsOn c (nullable inner) slot c inner slot
  | union {c : Context} {discriminant tag : String} {declarations : List (String × Schema)}
      {variant : Schema} {slot : Slot} (tagged : Checks.tag discriminant slot = .ok (some (.string tag)))
      (declared : (Entries.standing declarations).lookup tag = some variant) :
      RestsOn c (union discriminant declarations) slot c variant slot
  | stored {c : Context} {schema : Schema} {slot : Slot} : RestsOn c (stored schema) slot c schema slot
  | item {c child : Context} {item : Schema} {items : List Value} {v : Value} (mem : v ∈ items)
      (descend : c.descend = .ok child) : RestsOn c (array item) (some (.array items)) child item (some v)
  | field {c child : Context} {declarations : List (String × Schema)} {v : Value} {own : Entries Value}
      {d : String × Schema} (properties : v.properties? = some own) (descend : c.descend = .ok child)
      (declared : d ∈ Entries.standing declarations) :
      RestsOn c (record declarations) (some v) child d.2 (own.lookup d.1)
  | target {c child : Context} {name : String} {target : Schema} {slot : Slot}
      (resolve : c.resolve name = .ok (target, child)) : RestsOn c (ref name) slot child target slot

/-- In the run of the schema on the slot, the second schema of an `and` makes of the first one's result
something else, which the first does not give back, or the first schema of an `or`, having refused the slot,
changes what the second made of it. -/
inductive Conflicts : Context → Schema → Slot → Prop where
  | and {c : Context} {first second : Schema} {slot narrowed r : Slot}
      (one : first.validate c slot = .ok narrowed) (two : second.validate c narrowed = .ok r)
      (changed : r ≠ narrowed) (lost : first.validate c r ≠ .ok r) :
      Conflicts c (and first second) slot
  | or {c : Context} {first second : Schema} {slot r r' : Slot} {f : Failure}
      (one : first.validate c slot = .error f) (two : second.validate c slot = .ok r)
      (again : first.validate c r = .ok r') (changed : r' ≠ r) : Conflicts c (or first second) slot
  | inside {c c' : Context} {whole part : Schema} {slot slot' : Slot}
      (rests : RestsOn c whole slot c' part slot') (conflict : Conflicts c' part slot') :
      Conflicts c whole slot

theorem RestsOn.bound?_eq {c' : Context} {whole part : Schema} {slot' : Slot}
    (h : RestsOn c whole slot c' part slot') : c'.bound? = c.bound? := by
  cases h with
  | item mem descend => exact Context.bound?_of_descend descend
  | field properties descend => exact Context.bound?_of_descend descend
  | target resolve => exact Context.bound?_of_descend (Context.resolve_eq_ok_iff.1 resolve).2
  | _ => rfl

theorem RestsOn.includes {c' : Context} {whole part schema : Schema} {slot' : Slot}
    (h : RestsOn c whole slot c' part slot') (inside : Includes c.bound? part schema) :
    Includes c.bound? whole schema := by
  cases h with
  | andFirst => exact .outer (by simp [outerParts]) inside
  | andSecond => exact .outer (by simp [outerParts]) inside
  | orFirst => exact .outer (by simp [outerParts]) inside
  | orSecond => exact .outer (by simp [outerParts]) inside
  | optional => exact .outer (List.mem_singleton_self part) inside
  | nullable => exact .outer (List.mem_singleton_self part) inside
  | union tagged declared => exact .outer (outerPart_of_variant declared) inside
  | stored => exact .outer (List.mem_singleton_self part) inside
  | item => exact .inner (List.mem_singleton_self part) inside
  | field properties descend declared => exact .inner (innerPart_of_field declared) inside
  | target resolve => exact .target (Context.resolve_eq_ok_iff.1 resolve).1 inside

section Kept

theorem tag_of_kept {discriminant tag : String} (kept : Option.Rel Keeps r slot)
    (h : Checks.tag discriminant slot = .ok (some (.string tag))) :
    Checks.tag discriminant r = .ok (some (.string tag)) := by
  cases kept with
  | none => exact h
  | some keeps =>
      cases keeps.refines with
      | refl => exact h
      | array => simp [Checks.tag] at h
      | reread => simp [Checks.tag] at h
      | object names members =>
          rename_i new old
          have tagged : old.lookup discriminant = some (.string tag) := by
            simpa [Checks.tag] using h
          have named := (names discriminant).2 ((Entries.mem_names_iff _ _).2 ⟨_, tagged⟩)
          obtain ⟨u, hu⟩ := (Entries.mem_names_iff _ _).1 named
          cases members discriminant u _ hu tagged
          exact congrArg Except.ok hu

theorem ne_null_of_kept (kept : Option.Rel Keeps r slot) (h : slot ≠ some .null) : r ≠ some .null := by
  rintro rfl
  cases kept with
  | some keeps =>
      cases keeps.refines
      exact h rfl

theorem merge_merge {own : Entries Value} {results : List (String × Slot)}
    (distinct : (Entries.names results).Nodup) : merge (merge own results) results = merge own results := by
  refine merge_eq_self fun e he v hv => ?_
  rw [lookup_merge distinct, Entries.lookup_of_mem distinct he, hv]
  rfl

end Kept

theorem again_of_unchanged {schema : Schema} (still : ¬MayReread c.bound? schema)
    (h : schema.validate c slot = .ok r) : schema.validate c r = .ok r := by
  obtain rfl := unchanged_of_validate still h
  exact h

theorem again_of_below
    (below : ∀ child, c.descend = .ok child → ∀ (schema : Schema) slot r,
      ¬Conflicts child schema slot → schema.validate child slot = .ok r →
        schema.validate child r = .ok r)
    (schema : Schema) (calm : ¬Conflicts c schema slot) (h : schema.validate c slot = .ok r) :
    schema.validate c r = .ok r := by
  induction schema generalizing slot r with
  | string | number | boolean | any | exact | oneOf | keyOf =>
      exact again_of_unchanged (not_mayReread_of_leaf rfl rfl (by simp) (by simp)) h
  | array item =>
      obtain ⟨items, new, rfl, rfl, ⟨rfl, rfl⟩ | ⟨child, nonempty, hc, hn⟩⟩ :=
        validate_array_eq_ok_iff.1 h
      · exact h
      · obtain ⟨length, parts⟩ := validateItems_eq_ok_iff.1 hn
        have nonempty' := ne_nil_of_validateItems hn nonempty
        refine validate_array_eq_ok_iff.2 ⟨new, new, rfl, rfl, .inr ⟨child, nonempty', hc, ?_⟩⟩
        refine validateItems_eq_ok_iff.2 ⟨rfl, fun i w hw => ?_⟩
        have hi : i < items.length := length ▸ (List.getElem?_eq_some_iff.1 hw).1
        have hv : items[i]? = some items[i] := List.getElem?_eq_getElem hi
        obtain ⟨s, hs, hn'⟩ := parts i _ hv
        obtain ⟨u, rfl, -⟩ := present_of_validate hs
        obtain rfl : w = u := Option.some.inj (hw.symm.trans hn')
        have calmItem : ¬Conflicts child item (some items[i]) := fun conflict =>
          calm (.inside (.item (List.getElem_mem hi) hc) conflict)
        exact ⟨some w, below child hc item _ _ calmItem hs, hw⟩
  | record declarations =>
      obtain ⟨v, own, rfl, properties, ⟨-, rfl⟩ | ⟨child, results, declared, hc, run, rfl⟩⟩ :=
        validate_record_eq_ok_iff.1 h
      · exact h
      · have distinct := names_results run ▸ Entries.nodup_names_standing declarations
        refine validate_record_eq_ok_iff.2 ⟨_, merge own results, rfl, rfl,
          .inr ⟨child, results, declared, hc, ?_, by rw [merge_merge distinct]⟩⟩
        refine validateFields_of_each (fun d hd s hs => ?_) run
        rw [lookup_merge_of_field run hd hs]
        exact below child hc d.2 _ _ (fun conflict => calm (.inside (.field properties hc hd) conflict)) hs
  | and first second ihFirst ihSecond =>
      obtain ⟨narrowed, hf, hs⟩ := validate_and_eq_ok_iff.1 h
      have one := ihFirst (fun conflict => calm (.inside .andFirst conflict)) hf
      have two := ihSecond (fun conflict => calm (.inside (.andSecond hf) conflict)) hs
      by_cases back : first.validate c r = .ok r
      · exact validate_and_eq_ok_iff.2 ⟨r, back, two⟩
      · have changed : r ≠ narrowed := by
          rintro rfl
          exact back one
        exact absurd (.and hf hs changed back) calm
  | or first second ihFirst ihSecond =>
      obtain hf | ⟨f, hf, hs⟩ := validate_or_eq_ok_iff.1 h
      · have one := ihFirst (fun conflict => calm (.inside (.orFirst hf) conflict)) hf
        exact validate_or_eq_ok_iff.2 (.inl one)
      · have two := ihSecond (fun conflict => calm (.inside (.orSecond hf) conflict)) hs
        cases again : first.validate c r with
        | error g => exact validate_or_eq_ok_iff.2 (.inr ⟨g, again, two⟩)
        | ok r' =>
            by_cases changed : r' = r
            · exact validate_or_eq_ok_iff.2 (.inl (changed ▸ again))
            · exact absurd (.or hf hs again changed) calm
  | optional inner ih =>
      rw [validate_optional] at h
      cases slot with
      | none =>
          cases h
          exact validate_optional c none inner
      | some v =>
          have again := ih (fun conflict => calm (.inside .optional conflict)) h
          obtain ⟨w, rfl, -⟩ := present_of_validate h
          rw [validate_optional]
          exact again
  | nullable inner ih =>
      by_cases hn : slot = some .null
      · rw [hn, validate_nullable_null] at h
        cases h
        exact validate_nullable_null c inner
      · rw [validate_nullable c inner hn] at h
        rw [validate_nullable c inner (ne_null_of_kept (keeps_of_validate h) hn)]
        exact ih (fun conflict => calm (.inside (.nullable hn) conflict)) h
  | union discriminant declarations ih =>
      obtain ⟨tag, variant, tagged, hv, hr⟩ := validate_union_eq_ok_iff.1 h
      have again := ih _ (Entries.mem_of_lookup_standing hv)
        (fun conflict => calm (.inside (.union tagged hv) conflict)) hr
      exact validate_union_eq_ok_iff.2 ⟨tag, variant, tag_of_kept (keeps_of_validate hr) tagged, hv, again⟩
  | ref name =>
      obtain ⟨registry, target, child, hreg, bound, hc, hr⟩ := validate_ref_eq_ok_iff.1 h
      have resolve : c.resolve name = .ok (target, child) :=
        Context.resolve_eq_ok_iff.2 ⟨(Context.bound?_of_registry hreg name).trans bound, hc⟩
      have again := below child hc target slot r
        (fun conflict => calm (.inside (.target resolve) conflict)) hr
      exact validate_ref_eq_ok_iff.2 ⟨registry, target, child, hreg, bound, hc, again⟩
  | stored schema ih =>
      rw [validate_stored] at h ⊢
      exact ih (fun conflict => calm (.inside .stored conflict)) h

theorem again_of_validate {schema : Schema} (calm : ¬Conflicts c schema slot)
    (h : schema.validate c slot = .ok r) : schema.validate c r = .ok r := by
  induction c using Context.induction generalizing schema slot r with
  | step c below =>
      exact again_of_below (fun child hc _ _ _ calm h => below child hc calm h) schema calm h

/-- In what the schema includes, no second schema of an `and` may read an array as an object, and of the two
schemas of an `or` one may not. -/
def Concordant (bound? : String → Option Schema) (schema : Schema) : Prop :=
  (∀ first second, Includes bound? schema (and first second) → ¬MayReread bound? second) ∧
    ∀ first second, Includes bound? schema (or first second) →
      ¬MayReread bound? first ∨ ¬MayReread bound? second

theorem not_concordant_of_conflicts {schema : Schema} (h : Conflicts c schema slot) :
    ¬Concordant c.bound? schema := by
  induction h with
  | and one two changed lost =>
      intro concordant
      exact changed (unchanged_of_validate (concordant.1 _ _ (.self _)) two)
  | or one two again changed =>
      intro concordant
      obtain still | still := concordant.2 _ _ (.self _)
      · exact changed (unchanged_of_validate still again)
      · obtain rfl := unchanged_of_validate still two
        rw [one] at again
        cases again
  | inside rests _ ih =>
      intro concordant
      rw [rests.bound?_eq] at ih
      exact ih ⟨fun _ _ inside => concordant.1 _ _ (rests.includes inside),
        fun _ _ inside => concordant.2 _ _ (rests.includes inside)⟩

/-- An output comes back as it is when no `and` and no `or` in its run is in conflict; so it does for every
value where no second schema of an `and` and not both schemas of an `or` may read an array as an object, and
for every schema where the value holds no array. -/
theorem output_validates_again {schema : Schema} {c : Context} {v : Value} {r : Slot}
    (h : schema.validate c (some v) = .ok r)
    (accord : ¬Conflicts c schema (some v) ∨ Concordant c.bound? schema ∨ ArrayFree v) :
    ∃ w, r = some w ∧ schema.validate c (some w) = .ok (some w) := by
  obtain ⟨w, rfl, keeps⟩ := present_of_validate h
  refine ⟨w, rfl, ?_⟩
  obtain calm | concordant | free := accord
  · exact again_of_validate calm h
  · exact again_of_validate (fun conflict => not_concordant_of_conflicts conflict concordant) h
  · rw [keeps.same free] at h ⊢
    exact h

theorem output_validates_again_fallback :
    Concordant (Context.bound? {}) (or string (record [("1", boolean)])) ∧
    (or string (record [("1", boolean)])).validate {} (some (.array [.null, .bool true])) =
      .ok (some (.object [("0", .null), ("1", .bool true)])) ∧
    (or string (record [("1", boolean)])).validate {} (some (.object [("0", .null), ("1", .bool true)])) =
      .ok (some (.object [("0", .null), ("1", .bool true)])) := by
  have concordant : Concordant (Context.bound? {}) (or string (record [("1", boolean)])) := by
    have parts : ∀ s, (or string (record [("1", boolean)])).Contains s →
        (∀ first second, s ≠ and first second) ∧ ∀ first second, s = or first second → first = string := by
      refine forall_contains (by simp) ?_ (by simp [innerParts])
      simp only [outerParts, List.mem_cons, List.not_mem_nil, or_false, forall_eq_or_imp, forall_eq]
      refine ⟨forall_contains_leaf (by simp) rfl rfl, forall_contains (by simp) (by simp [outerParts]) ?_⟩
      intro part isPart
      obtain rfl : part = boolean := List.mem_singleton.1 isPart
      exact forall_contains_leaf (by simp) rfl rfl
    have standing : ∀ {s}, Includes (Context.bound? {}) (or string (record [("1", boolean)])) s →
        (or string (record [("1", boolean)])).Contains s := by
      intro s inside
      obtain here | ⟨name, target, bound, -⟩ := contains_of_includes inside
      · exact here
      · cases bound
    refine ⟨fun first second inside => absurd rfl ((parts _ (standing inside)).1 first second), ?_⟩
    intro first second inside
    obtain rfl := (parts _ (standing inside)).2 first second rfl
    exact .inl (not_mayReread_of_leaf rfl rfl (by simp) (by simp))
  have run : (or string (record [("1", boolean)])).validate {} (some (.array [.null, .bool true])) =
      .ok (some (.object [("0", .null), ("1", .bool true)])) := rfl
  obtain ⟨w, hw, again⟩ := output_validates_again run (.inr (.inl concordant))
  cases hw
  exact ⟨concordant, run, again⟩

/-- A first schema of an `or` that refuses an array, and reads further the object that the second makes of it. -/
example :
    let schema := or (union "0" [("a", record [("1", record [("0", any)])])]) (record [("0", string)])
    schema.validate {} (some (.array [.string "a", .array [.bool true]])) =
      .ok (some (.object [("0", .string "a"), ("1", .array [.bool true])])) ∧
    schema.validate {} (some (.object [("0", .string "a"), ("1", .array [.bool true])])) =
      .ok (some (.object [("0", .string "a"), ("1", .object [("0", .bool true)])])) := ⟨rfl, rfl⟩

end JsonShape.Schema
