import JsonShape.Proofs.Outcome
import Mathlib.Data.List.Forall2

/-!
Outcomes side by side. Two outcomes are alike when both succeed with related results or both fail with
related failures; alike parts, in one order, make alike lists.
-/

namespace JsonShape.Outcome

open List (Forall₂)

variable {α α' β β' : Type} {fails : Failure → Failure → Prop} {rel : α → α' → Prop}
  {rel' : β → β' → Prop} {r : Outcome α} {r' : Outcome α'}

/-- Both outcomes succeed, with results that `rel` relates, or both fail, with failures that `fails`
relates. -/
inductive Alike (fails : Failure → Failure → Prop) (rel : α → α' → Prop) :
    Outcome α → Outcome α' → Prop where
  | ok {a : α} {a' : α'} (h : rel a a') : Alike fails rel (.ok a) (.ok a')
  | error {f f' : Failure} (h : fails f f') : Alike fails rel (.error f) (.error f')

theorem eq_of_alike {r r' : Outcome α} (h : Alike Eq Eq r r') : r = r' := by
  cases h with
  | ok h => rw [h]
  | error h => rw [h]

theorem alike_of_eq (reflFails : ∀ f, fails f f) {rel : α → α → Prop} (reflRel : ∀ a, rel a a)
    {r r' : Outcome α} (h : r = r') : Alike fails rel r r' := by
  subst h
  cases r with
  | ok a => exact .ok (reflRel a)
  | error f => exact .error (reflFails f)

theorem Alike.imp {rel₂ : α → α' → Prop} (h : Alike fails rel r r') (sub : ∀ a a', rel a a' → rel₂ a a') :
    Alike fails rel₂ r r' := by
  cases h with
  | ok h => exact .ok (sub _ _ h)
  | error h => exact .error h

theorem Alike.map (h : Alike fails rel r r') (g : α → β) (g' : α' → β')
    (related : ∀ a a', r = .ok a → r' = .ok a' → rel a a' → rel' (g a) (g' a')) :
    Alike fails rel' (r.map g) (r'.map g') := by
  cases h with
  | ok h => exact .ok (related _ _ rfl rfl h)
  | error h => exact .error h

theorem Alike.of_map {g : α → β} {g' : α' → β'} (h : Alike fails rel' (r.map g) (r'.map g')) :
    Alike fails (fun a a' => rel' (g a) (g' a')) r r' := by
  cases r with
  | ok a =>
      cases r' with
      | ok a' =>
          cases h with
          | ok h => exact .ok h
      | error f' => cases h
  | error f =>
      cases r' with
      | ok a' => cases h
      | error f' =>
          cases h with
          | error h => exact .error h

theorem Alike.under (h : Alike fails rel r r') (s : Segment)
    (within : ∀ f f', fails f f' → fails (f.within s) (f'.within s)) :
    Alike fails rel (under s r) (under s r') := by
  cases h with
  | ok h => exact .ok h
  | error h => exact .error (within _ _ h)

theorem alike_mapM {f : β → Outcome α} {f' : β' → Outcome α'} {l : List β} {l' : List β'}
    (h : Forall₂ (fun b b' => Alike fails rel (f b) (f' b')) l l') :
    Alike fails (Forall₂ rel) (l.mapM f) (l'.mapM f') := by
  induction h with
  | nil => exact .ok .nil
  | @cons b b' l l' head _ ih =>
      rw [mapM_cons, mapM_cons]
      generalize f b = r at head
      generalize f' b' = r' at head
      cases head with
      | error failed => exact .error failed
      | ok related => exact ih.map _ _ fun _ _ _ _ tail => .cons related tail

theorem mapM_eq_of_forall₂ {f : β → Outcome α} {f' : β' → Outcome α} {l : List β} {l' : List β'}
    (h : Forall₂ (fun b b' => f b = f' b') l l') : l.mapM f = l'.mapM f' := by
  have alike := alike_mapM (h.imp fun _ _ => alike_of_eq (fun f => Eq.refl f) fun a => Eq.refl a)
  rw [List.forall₂_eq_eq_eq] at alike
  exact eq_of_alike alike

end JsonShape.Outcome

namespace JsonShape

theorem forall₂_zipIdx {α β : Type} {rel : α → β → Prop} {l : List α} {l' : List β}
    (h : List.Forall₂ rel l l') (start : Nat) :
    List.Forall₂ (fun e e' => rel e.1 e'.1 ∧ e.2 = e'.2) (l.zipIdx start) (l'.zipIdx start) := by
  induction h generalizing start with
  | nil => exact .nil
  | cons head _ ih => exact .cons ⟨head, rfl⟩ (ih (start + 1))

end JsonShape
