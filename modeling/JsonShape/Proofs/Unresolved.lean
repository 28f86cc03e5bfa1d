import JsonShape.Proofs.Fields
import JsonShape.Proofs.Resolution
import JsonShape.Proofs.Text.Bytes
import Mathlib.Data.List.Destutter

/-!
The unresolved names of a registry. They are the names of the references that stand in one of its schemas and to
which nothing is bound, listed in the order of their bytes. Such a list is told by its names, so it depends neither
on the order in which the schemas were registered nor on that in which they are visited.
-/

namespace JsonShape

/-- The list has the names of which `p` holds, and these in strictly increasing order of their bytes. -/
structure Lists (l : List String) (p : String → Prop) : Prop where
  increasing : l.Pairwise fun s t => bytes s < bytes t
  mem_iff (name : String) : name ∈ l ↔ p name

namespace Lists

variable {l m : List String} {p q : String → Prop}

theorem nodup (lists : Lists l p) : l.Nodup := by
  refine lists.increasing.imp ?_
  rintro s t less rfl
  exact List.lt_irrefl _ less

theorem eq (first : Lists l p) (second : Lists m p) : l = m := by
  refine List.Perm.eq_of_pairwise (fun s t _ _ less more => absurd more (List.lt_asymm less))
    first.increasing second.increasing ?_
  refine (List.perm_ext_iff_of_nodup first.nodup second.nodup).2 fun name => ?_
  exact (first.mem_iff name).trans (second.mem_iff name).symm

theorem congr (lists : Lists l p) (same : ∀ name, p name ↔ q name) : Lists l q :=
  ⟨lists.increasing, fun name => (lists.mem_iff name).trans (same name)⟩

end Lists

namespace Registry

/-- Sorts names by their bytes and keeps one of equal neighbours. -/
def sortedOnce (l : List String) : List String :=
  (l.mergeSort fun s t => bytes s ≤ bytes t).destutter (· ≠ ·)

theorem pairwise_sort (l : List String) :
    (l.mergeSort fun s t => bytes s ≤ bytes t).Pairwise (· ≤ ·) := by
  have trans : ∀ s t u, decide (bytes s ≤ bytes t) = true → decide (bytes t ≤ bytes u) = true →
      decide (bytes s ≤ bytes u) = true := by
    simp only [decide_eq_true_iff, bytes_le_iff]
    exact fun s t u => String.le_trans
  have total : ∀ s t, (decide (bytes s ≤ bytes t) || decide (bytes t ≤ bytes s)) = true := by
    simp only [Bool.or_eq_true, decide_eq_true_iff, bytes_le_iff]
    exact String.le_total
  exact (List.pairwise_mergeSort trans total l).imp fun h => bytes_le_iff.1 (of_decide_eq_true h)

theorem lists_sortedOnce (l : List String) : Lists (sortedOnce l) (· ∈ l) := by
  have sorted := pairwise_sort l
  have kept : sortedOnce l = (l.mergeSort fun s t => bytes s ≤ bytes t).dedup := sorted.destutter_eq_dedup
  rw [kept]
  refine ⟨?_, fun name => by simp⟩
  have apart := (sorted.sublist (List.dedup_sublist _)).and (List.nodup_dedup _)
  exact apart.imp fun h => bytes_lt_iff.2 (Std.lt_of_le_of_ne h.1 h.2)

/-- A schema that a name is bound to holds a reference to `missing`, to which nothing is bound. -/
def Dangling (r : Registry) (missing : String) : Prop :=
  (∃ name schema, r.get? name = some schema ∧ schema.Contains (.ref missing)) ∧ r.get? missing = none

theorem lists_unresolved (r : Registry) : Lists r.unresolved r.Dangling where
  increasing := (Entries.increasing_sorted _).imp bytes_lt_iff.2
  mem_iff name := by
    rw [mem_unresolved_iff]
    simp only [Dangling, Schema.mem_references_iff]

theorem unresolved_congr {r s : Registry} (same : ∀ name, s.get? name = r.get? name) :
    s.unresolved = r.unresolved := by
  refine (lists_unresolved s).eq ((lists_unresolved r).congr fun name => ?_)
  simp only [Dangling, same]

/-- The unresolved names, collected from the entries in the order in which they are visited. -/
def collected (r : Registry) (visited : Entries Schema) : List String :=
  sortedOnce ((visited.flatMap fun e => e.2.references).filter fun name => (r.get? name).isNone)

theorem collected_eq_unresolved {r : Registry} {visited : Entries Schema} (perm : visited.Perm r.entries) :
    r.collected visited = r.unresolved := by
  refine (lists_sortedOnce _).eq ((lists_unresolved r).congr fun name => ?_)
  simp only [Dangling, ← Schema.mem_references_iff, ← mem_entries_iff, ← perm.mem_iff, List.mem_filter,
    List.mem_flatMap, Option.isNone_iff_eq_none, Prod.exists]

theorem unresolved_registerAll_of_perm {requests others : List (String × Schema)} (r : Registry)
    (perm : requests.Perm others) (distinct : (Entries.names requests).Nodup) :
    (r.registerAll others).unresolved = (r.registerAll requests).unresolved := by
  refine unresolved_congr fun name => ?_
  rw [get?_registerAll_eq, get?_registerAll_eq, Entries.lookup_eq_of_perm perm distinct]

theorem lists_unresolved_of_register {r s : Registry} {name : String} {schema : Schema}
    (h : r.register name schema = .ok s) :
    Lists s.unresolved fun missing =>
      missing ∈ r.unresolved ∧ missing ≠ name ∨
        schema.Contains (.ref missing) ∧ s.get? missing = none := by
  refine (lists_unresolved s).congr fun missing => ?_
  have free := get?_eq_none_of_register h
  rw [(lists_unresolved r).mem_iff]
  constructor
  · rintro ⟨⟨holder, target, bound, inside⟩, unbound⟩
    by_cases new : holder = name
    · rw [get?_of_register h, if_pos new] at bound
      cases bound
      exact .inr ⟨inside, unbound⟩
    · rw [get?_of_register h, if_neg new] at bound
      rw [get?_of_register h] at unbound
      have other : missing ≠ name := fun same => by simp [same] at unbound
      rw [if_neg other] at unbound
      exact .inl ⟨⟨⟨holder, target, bound, inside⟩, unbound⟩, other⟩
  · rintro (⟨⟨⟨holder, target, bound, inside⟩, unbound⟩, other⟩ | ⟨inside, unbound⟩)
    · have old : holder ≠ name := fun same => by simp [same, free] at bound
      refine ⟨⟨holder, target, ?_, inside⟩, ?_⟩
      · rw [get?_of_register h, if_neg old, bound]
      · rw [get?_of_register h, if_neg other, unbound]
    · refine ⟨⟨name, schema, ?_, inside⟩, unbound⟩
      rw [get?_of_register h, if_pos rfl]

/-- A registry lists as unresolved, in the order of their bytes, just the names that its schemas refer to and that
are not bound. The list is the same in whatever order the entries are visited, and in whatever order they were
registered. What is registered under a new name takes this name from the list, and adds to it the names that its
schema refers to and that are still not bound. -/
theorem unresolved_lists_dangling :
    (∀ r : Registry, Lists r.unresolved r.Dangling) ∧
    (∀ (r : Registry) (visited : Entries Schema), visited.Perm r.entries →
      r.collected visited = r.unresolved) ∧
    (∀ (r : Registry) (requests others : List (String × Schema)), requests.Perm others →
      (Entries.names requests).Nodup →
        (r.registerAll others).unresolved = (r.registerAll requests).unresolved) ∧
    ∀ (r : Registry) (name : String) (schema : Schema), r.get? name = none →
      ∃ s, r.register name schema = .ok s ∧
        Lists s.unresolved fun missing =>
          missing ∈ r.unresolved ∧ missing ≠ name ∨
            schema.Contains (.ref missing) ∧ s.get? missing = none := by
  refine ⟨lists_unresolved, fun r visited => collected_eq_unresolved,
    fun r requests others => unresolved_registerAll_of_perm r, fun r name schema free => ?_⟩
  obtain ⟨s, registered⟩ := register_of_unbound free schema
  exact ⟨s, registered, lists_unresolved_of_register registered⟩

theorem unresolved_lists_dangling_leaf :
    let requests : List (String × Schema) :=
      [("Tree", .record [("l", .ref "Gone"), ("r", .ref "Leaf"), ("l", .optional (.ref "Tree"))]),
        ("Any", .or (.ref "é") (.array (.ref "Z")))]
    let r := Registry.empty.registerAll requests
    r.unresolved = ["Leaf", "Z", "é"] ∧ r.Dangling "Leaf" ∧ ¬r.Dangling "Gone" ∧
      r.collected r.entries.reverse = ["Leaf", "Z", "é"] ∧
      (Registry.empty.registerAll requests.reverse).unresolved = ["Leaf", "Z", "é"] ∧
      ∃ s, r.register "Leaf" (.nullable (.ref "A")) = .ok s ∧ "A" ∈ s.unresolved ∧
        "Leaf" ∉ s.unresolved := by
  intro requests r
  obtain ⟨listed, visited, reordered, extended⟩ := unresolved_lists_dangling
  have names : r.unresolved = ["Leaf", "Z", "é"] := by decide +kernel
  have dangling : ∀ name, name ∈ ["Leaf", "Z", "é"] ↔ r.Dangling name := names ▸ (listed r).mem_iff
  obtain ⟨s, registered, grown⟩ := extended r "Leaf" (.nullable (.ref "A")) rfl
  refine ⟨names, (dangling "Leaf").1 (by decide), fun h => absurd ((dangling "Gone").2 h) (by decide),
    (visited r _ (List.reverse_perm _)).trans names,
    (reordered .empty requests _ (List.reverse_perm _).symm (by decide)).trans names, s, registered, ?_, ?_⟩
  · refine (grown.mem_iff "A").2 (.inr ⟨.outer (List.mem_singleton_self _) (.self _), ?_⟩)
    rw [get?_of_register registered]
    rfl
  · intro still
    rcases (grown.mem_iff "Leaf").1 still with ⟨-, other⟩ | ⟨-, unbound⟩
    · exact other rfl
    · rw [get?_of_register registered] at unbound
      cases unbound

end Registry

end JsonShape
