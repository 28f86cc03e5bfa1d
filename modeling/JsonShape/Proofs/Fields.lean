import JsonShape.Proofs.Preservation
import Mathlib.Data.List.Basic
import Mathlib.Data.List.Induction

/-!
Fields and their results. A sequence of declarations settles each name once, in the order of the first
declarations and with the schema of the last. What the fields of a record return is written over the
properties they were run on: each property that has a result takes it, and the others stay.
-/

namespace JsonShape

namespace Entries

variable {α : Type}

/-- The distinct names in the order of their first declarations, each with what was declared last. -/
def settled (declarations : Entries α) : Entries α :=
  (names declarations).eraseDups.filterMap fun name =>
    (declarations.reverse.lookup name).map fun a => (name, a)

theorem standing_append_singleton (declarations : Entries α) (e : String × α) :
    standing (declarations ++ [e]) = declare (standing declarations) e.1 e.2 := by
  simp [standing]

theorem names_standing (declarations : Entries α) :
    names (standing declarations) = (names declarations).eraseDups := by
  induction declarations using List.reverseRecOn with
  | nil => rfl
  | append_singleton declarations e ih =>
      rw [standing_append_singleton, names_declare, ih, names, names, List.map_append,
        List.eraseDups_append]
      by_cases known : e.1 ∈ declarations.map Prod.fst <;> simp [known, List.removeAll, List.eraseDups_cons]

theorem standing_of_nodup {l : Entries α} (distinct : (names l).Nodup) : standing l = l := by
  induction l using List.reverseRecOn with
  | nil => rfl
  | append_singleton l e ih =>
      rw [names, List.map_append, List.nodup_append] at distinct
      obtain ⟨distinct, -, apart⟩ := distinct
      have new : e.1 ∉ names l := fun known => apart e.1 known e.1 (List.mem_singleton_self _) rfl
      rw [standing_append_singleton, ih distinct, declare, if_neg new]

theorem standing_eq_nil_iff (declarations : Entries α) :
    standing declarations = [] ↔ declarations = [] := by
  constructor
  · intro none
    induction declarations using List.reverseRecOn with
    | nil => rfl
    | append_singleton declarations e =>
        have last : (standing (declarations ++ [e])).lookup e.1 = some e.2 := by
          rw [standing_append_singleton, lookup_declare, if_pos rfl]
        rw [none] at last
        cases last
  · rintro rfl
    rfl

theorem eq_filterMap_lookup {l : Entries α} (distinct : (names l).Nodup) :
    l = (names l).filterMap fun name => (l.lookup name).map fun a => (name, a) := by
  have each : l.filterMap (fun e => (l.lookup e.1).map fun a => (e.1, a)) = l.filterMap some :=
    List.filterMap_congr fun e mem => by rw [lookup_of_mem distinct mem]; rfl
  rw [names, List.filterMap_map]
  exact (each.trans List.filterMap_some).symm

theorem standing_eq_settled (declarations : Entries α) : standing declarations = settled declarations := by
  rw [eq_filterMap_lookup (nodup_names_standing declarations), names_standing]
  simp only [lookup_standing, settled]

theorem lookup_eq_of_perm {l m : Entries α} (perm : l.Perm m) (distinct : (names l).Nodup) (key : String) :
    l.lookup key = m.lookup key := by
  have distinct' : (names m).Nodup := (perm.map Prod.fst).nodup_iff.1 distinct
  cases h : l.lookup key with
  | some a => exact (lookup_of_mem distinct' (perm.mem_iff.1 (mem_of_lookup h))).symm
  | none =>
      have absent := (lookup_eq_none_iff l key).1 h
      rw [names, (perm.map Prod.fst).mem_iff] at absent
      exact ((lookup_eq_none_iff m key).2 absent).symm

theorem lookup_map_named (f : String → α → α) (l : Entries α) (key : String) :
    (l.map fun e => (e.1, f e.1 e.2)).lookup key = (l.lookup key).map (f key) := by
  induction l with
  | nil => rfl
  | cons e l ih =>
      rw [List.map_cons, lookup_cons, lookup_cons, ih]
      by_cases h : key = e.1 <;> simp [h]

theorem standing_map_named (f : String → α → α) (declarations : Entries α) :
    standing (declarations.map fun e => (e.1, f e.1 e.2)) =
      (standing declarations).map fun e => (e.1, f e.1 e.2) := by
  have names : ∀ l : Entries α, names (l.map fun e => (e.1, f e.1 e.2)) = names l := fun l => by
    simp [names]
  have distinct := nodup_names_standing declarations
  rw [← names] at distinct
  refine Eq.trans ?_ (eq_filterMap_lookup distinct).symm
  rw [standing_eq_settled, settled, names, names, names_standing]
  simp only [← List.map_reverse, lookup_map_named, lookup_standing]

/-- The first entry of each name takes what `new` has for it, if it has anything. -/
def overwrite (new : String → Option α) : Entries α → Entries α
  | [] => []
  | e :: l => (e.1, (new e.1).getD e.2) :: overwrite (fun key => if key = e.1 then none else new key) l

@[simp] theorem names_overwrite (new : String → Option α) (l : Entries α) :
    names (overwrite new l) = names l := by
  induction l generalizing new with
  | nil => rfl
  | cons e l ih => exact congrArg (e.1 :: ·) (ih _)

theorem lookup_overwrite (new : String → Option α) (l : Entries α) (key : String) :
    (overwrite new l).lookup key = (l.lookup key).map fun a => (new key).getD a := by
  induction l generalizing new with
  | nil => rfl
  | cons e l ih =>
      rw [overwrite, lookup_cons, lookup_cons, ih]
      by_cases h : key = e.1 <;> simp [h]

theorem overwrite_eq_self {new : String → Option α} {l : Entries α}
    (same : ∀ key a, new key = some a → l.lookup key = some a) : overwrite new l = l := by
  induction l generalizing new with
  | nil => rfl
  | cons e l ih =>
      have head : (new e.1).getD e.2 = e.2 := by
        cases h : new e.1 with
        | none => rfl
        | some a => simpa [eq_comm] using same e.1 a h
      rw [overwrite, head, ih]
      intro key a h
      split at h
      · cases h
      next ne => simpa [ne] using same key a h

theorem replace_eq_overwrite (name : String) (a : α) (l : Entries α) :
    replace name a l = overwrite (fun key => if key = name then some a else none) l := by
  induction l with
  | nil => rfl
  | cons e l ih =>
      by_cases h : e.1 = name
      · subst h
        rw [replace, if_pos rfl, overwrite, overwrite_eq_self]
        · simp
        · intro key b h
          split at h <;> cases h
      · have rest : (fun key => if key = e.1 then none else if key = name then some a else none) =
            fun key => if key = name then some a else none := by
          funext key
          by_cases hk : key = e.1
          · rw [if_pos hk, if_neg (hk ▸ h)]
          · rw [if_neg hk]
        simp [replace, overwrite, h, rest, ih]

theorem overwrite_overwrite (new old : String → Option α) (l : Entries α) :
    overwrite new (overwrite old l) = overwrite (fun key => (new key).or (old key)) l := by
  induction l generalizing new old with
  | nil => rfl
  | cons e l ih =>
      have rest : (fun key => if key = e.1 then none else (new key).or (old key)) =
          fun key => (if key = e.1 then none else new key).or (if key = e.1 then none else old key) := by
        funext key
        split <;> rfl
      simp only [overwrite, ih, rest]
      cases new e.1 <;> rfl

end Entries

namespace Schema

open Entries (overwrite)

variable {child : Run} {own : Entries Value} {fields : Entries Schema}

theorem merge_eq_overwrite {results : List (String × Slot)} (distinct : (Entries.names results).Nodup)
    (known : ∀ e ∈ results, e.2 ≠ none → e.1 ∈ Entries.names own) :
    merge own results = overwrite (fun key => (results.lookup key).join) own := by
  induction results generalizing own with
  | nil => exact (Entries.overwrite_eq_self nofun).symm
  | cons e results ih =>
      obtain ⟨name, r⟩ := e
      obtain ⟨new, rest⟩ := List.nodup_cons.1 distinct
      have absent : results.lookup name = none := (Entries.lookup_eq_none_iff _ _).2 new
      have later := fun d hd => known d (List.mem_cons_of_mem _ hd)
      cases r with
      | none =>
          have head : ∀ key, (List.lookup key ((name, none) :: results)).join =
              (results.lookup key).join := by
            intro key
            rw [Entries.lookup_cons]
            split
            next h => simp [h, absent]
            next => rfl
          simp only [head]
          exact ih rest later
      | some v =>
          have there : name ∈ Entries.names own := known _ (List.mem_cons_self ..) nofun
          have head : ∀ key, (List.lookup key ((name, some v) :: results)).join =
              (results.lookup key).join.or (if key = name then some v else none) := by
            intro key
            rw [Entries.lookup_cons]
            by_cases h : key = name <;> simp [h, absent]
          have placed : Entries.insert own name v =
              overwrite (fun key => if key = name then some v else none) own := by
            rw [Entries.insert, if_pos there, Entries.replace_eq_overwrite]
          have step : merge own ((name, some v) :: results) = merge (Entries.insert own name v) results := rfl
          rw [step, placed, ih rest, Entries.overwrite_overwrite]
          · simp only [head]
          · rw [Entries.names_overwrite]
            exact later

theorem validateFields_succeeds_iff :
    (∃ results, validateFields child own fields = .ok results) ↔
      ∀ d ∈ fields, ∃ r, child d.2 (own.lookup d.1) = .ok r := by
  induction fields with
  | nil => exact iff_of_true ⟨[], rfl⟩ nofun
  | cons d fields ih =>
      rw [validateFields_cons, List.forall_mem_cons, ← ih]
      cases child d.2 (own.lookup d.1) <;> simp

/-- The schema of the field of a name; a property without a field may be anything. -/
def fieldAt (fields : Entries Schema) (key : String) : Schema := (fields.lookup key).getD any

theorem fieldAt_of_mem (distinct : (Entries.names fields).Nodup) {d : String × Schema} (mem : d ∈ fields) :
    fieldAt fields d.1 = d.2 := by
  rw [fieldAt, Entries.lookup_of_mem distinct mem]
  rfl

theorem fieldAt_of_undeclared {key : String} (undeclared : key ∉ Entries.names fields) :
    fieldAt fields key = any := by
  rw [fieldAt, (Entries.lookup_eq_none_iff fields key).2 undeclared]
  rfl

theorem fieldAt_perm {others : Entries Schema} (perm : fields.Perm others)
    (distinct : (Entries.names fields).Nodup) : fieldAt fields = fieldAt others := by
  funext key
  rw [fieldAt, fieldAt, Entries.lookup_eq_of_perm perm distinct]

def FieldsReturn (below : Context) (own : Entries Value) (fields : Entries Schema) (new : String → Slot) :
    Prop :=
  ∀ key, (fieldAt fields key).validate below (own.lookup key) = .ok (new key)

theorem exists_fieldsReturn_iff {below : Context} (distinct : (Entries.names fields).Nodup) :
    (∃ new, FieldsReturn below own fields new) ↔
      ∀ d ∈ fields, ∃ r, d.2.validate below (own.lookup d.1) = .ok r := by
  constructor
  · rintro ⟨new, returned⟩ d mem
    rw [← fieldAt_of_mem distinct mem]
    exact ⟨_, returned d.1⟩
  · intro each
    have total : ∀ key, ∃ r, (fieldAt fields key).validate below (own.lookup key) = .ok r := by
      intro key
      cases found : fields.lookup key with
      | none =>
          rw [fieldAt_of_undeclared ((Entries.lookup_eq_none_iff fields key).1 found), validate_any]
          exact ⟨_, rfl⟩
      | some schema =>
          have mem := Entries.mem_of_lookup found
          rw [fieldAt_of_mem distinct mem]
          exact each _ mem
    obtain ⟨new, returned⟩ := Classical.skolem.1 total
    exact ⟨new, returned⟩

theorem FieldsReturn.lookup {below : Context} {new : String → Slot} (h : FieldsReturn below own fields new)
    (key : String) : (overwrite new own).lookup key = new key := by
  rw [Entries.lookup_overwrite]
  have kept := keeps_of_validate (h key)
  cases ho : own.lookup key <;> cases hn : new key <;> rw [ho, hn] at kept
  · rfl
  · cases kept
  · cases kept
  · rfl

section Record

variable {c below : Context} {v : Value} {r : Slot} {declarations : List (String × Schema)}

theorem fieldsReturn_of_run {results : List (String × Slot)}
    (run : validateFields (fun schema slot => schema.validate below slot) own
      (Entries.standing declarations) = .ok results) :
    ∃ new, FieldsReturn below own (Entries.standing declarations) new ∧
      merge own results = overwrite new own := by
  have distinct := Entries.nodup_names_standing declarations
  have distinct' : (Entries.names results).Nodup := names_results run ▸ distinct
  refine ⟨fun key => (merge own results).lookup key, fun key => ?_, ?_⟩
  · show _ = Except.ok ((merge own results).lookup key)
    by_cases declared : key ∈ Entries.names (Entries.standing declarations)
    · obtain ⟨schema, found⟩ := (Entries.mem_names_iff _ _).1 declared
      obtain ⟨s, hs, -⟩ := lookup_results run found
      have mem := Entries.mem_of_lookup found
      rw [fieldAt_of_mem distinct mem, hs, lookup_merge_of_field run mem hs]
    · have absent : results.lookup key = none := by
        rw [Entries.lookup_eq_none_iff, names_results run]
        exact declared
      rw [fieldAt_of_undeclared declared, validate_any, lookup_merge distinct', absent]
      rfl
  · have unwritten : overwrite (fun key => own.lookup key) own = own :=
      Entries.overwrite_eq_self fun _ _ h => h
    simp only [lookup_merge distinct']
    rw [← Entries.overwrite_overwrite, unwritten, merge_eq_overwrite distinct' (mem_names_of_result run)]

theorem validate_record_of_runs (declared : declarations ≠ []) (descend : c.descend = .ok below)
    (properties : v.properties? = some own) :
    (record declarations).validate c (some v) =
      (validateFields (fun schema slot => schema.validate below slot) own
        (Entries.standing declarations)).map fun results => some (.object (merge own results)) := by
  rw [validate_record, (Checks.properties_eq_ok_iff _ _).2 ⟨v, rfl, properties⟩, descend]
  simp [declared]

theorem validate_record_eq_ok_iff_fields (declared : declarations ≠ []) (descend : c.descend = .ok below)
    (properties : v.properties? = some own) :
    (record declarations).validate c (some v) = .ok r ↔
      ∃ new, FieldsReturn below own (Entries.standing declarations) new ∧
        r = some (.object (overwrite new own)) := by
  rw [validate_record_of_runs declared descend properties, Outcome.map_eq_ok_iff]
  constructor
  · rintro ⟨results, run, rfl⟩
    obtain ⟨new, returned, merged⟩ := fieldsReturn_of_run run
    exact ⟨new, returned, by rw [merged]⟩
  · rintro ⟨new, returned, rfl⟩
    have each := (exists_fieldsReturn_iff (Entries.nodup_names_standing declarations)).1 ⟨new, returned⟩
    obtain ⟨results, run⟩ := validateFields_succeeds_iff.2 each
    obtain ⟨new', returned', merged⟩ := fieldsReturn_of_run run
    obtain rfl : new = new' := funext fun key => Except.ok.inj ((returned key).symm.trans (returned' key))
    exact ⟨results, run, by rw [merged]⟩

theorem validate_record_eq_error_iff_first {f : Failure} (declared : declarations ≠ [])
    (descend : c.descend = .ok below) (properties : v.properties? = some own) :
    (record declarations).validate c (some v) = .error f ↔
      ∃ (i : Nat) (d : String × Schema) (g : Failure), (Entries.standing declarations)[i]? = some d ∧
        d.2.validate below (own.lookup d.1) = .error g ∧ f = g.within (.field d.1) ∧
        ∀ j < i, ∀ e, (Entries.standing declarations)[j]? = some e →
          ∃ r, e.2.validate below (own.lookup e.1) = .ok r := by
  rw [validate_record_of_runs declared descend properties, Outcome.map_eq_error_iff]
  exact validateFields_eq_error_iff

end Record

end Schema

end JsonShape
