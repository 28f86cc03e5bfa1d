import JsonShape.Failure

/-!
Outcomes of lists. `mapM_eq_ok_iff` and `mapM_eq_error_iff` say what a list of parts makes of itself:
either every part succeeds, or the first that fails fails for all.
-/

namespace JsonShape.Outcome

variable {α β γ : Type}

def failure? : Outcome α → Option Failure
  | .ok _ => none
  | .error f => some f

@[simp] theorem failure?_eq_none_iff (r : Outcome α) : r.failure? = none ↔ ∃ a, r = .ok a := by
  cases r <;> simp [failure?]

@[simp] theorem failure?_eq_some_iff (r : Outcome α) (f : Failure) :
    r.failure? = some f ↔ r = .error f := by
  cases r <;> simp [failure?]

@[simp] theorem failure?_map (g : α → β) (r : Outcome α) : failure? (r.map g) = r.failure? := by
  cases r <;> rfl

@[simp] theorem failure?_under (s : Segment) (r : Outcome α) :
    (under s r).failure? = r.failure?.map fun f => f.within s := by
  cases r <;> rfl

@[simp] theorem map_eq_ok_iff (g : α → β) (r : Outcome α) (b : β) :
    r.map g = .ok b ↔ ∃ a, r = .ok a ∧ g a = b := by
  cases r <;> simp [Except.map]

@[simp] theorem map_eq_error_iff (g : α → β) (r : Outcome α) (f : Failure) :
    r.map g = .error f ↔ r = .error f := by
  cases r <;> simp [Except.map]

@[simp] theorem map_map (g : α → β) (h : β → γ) (r : Outcome α) :
    (r.map g).map h = r.map fun a => h (g a) := by
  cases r <;> rfl

theorem map_under (g : α → β) (s : Segment) (r : Outcome α) :
    (under s r).map g = under s (r.map g) := by
  cases r <;> rfl

theorem mapM_nil (f : α → Outcome β) : [].mapM f = .ok [] := rfl

theorem mapM_cons (f : α → Outcome β) (a : α) (l : List α) :
    (a :: l).mapM f =
      match f a with
      | .error e => .error e
      | .ok b => (l.mapM f).map fun bs => b :: bs := by
  rw [List.mapM_cons]
  cases f a with
  | error e => rfl
  | ok b =>
      cases h : l.mapM f with
      | error e => rfl
      | ok bs => rfl

theorem mapM_eq_ok_iff (f : α → Outcome β) (l : List α) (bs : List β) :
    l.mapM f = .ok bs ↔
      bs.length = l.length ∧
        ∀ (i : Nat) a, l[i]? = some a → ∃ b, f a = .ok b ∧ bs[i]? = some b := by
  induction l generalizing bs with
  | nil =>
      rw [mapM_nil]
      simp [eq_comm]
  | cons a l ih =>
      rw [mapM_cons]
      constructor
      · intro h
        cases ha : f a with
        | error e => simp [ha] at h
        | ok b =>
            rw [ha] at h
            obtain ⟨rest, hl, rfl⟩ := (map_eq_ok_iff _ _ _).1 h
            obtain ⟨length, parts⟩ := (ih rest).1 hl
            refine ⟨by simp [length], fun i x hx => ?_⟩
            cases i with
            | zero =>
                have hax : a = x := by simpa using hx
                exact ⟨b, hax ▸ ha, rfl⟩
            | succ i => exact parts i x (by simpa using hx)
      · rintro ⟨length, parts⟩
        cases bs with
        | nil => simp at length
        | cons b rest =>
            obtain ⟨b', ha, hb⟩ := parts 0 a rfl
            have hb' : b = b' := by simpa using hb
            have hl : l.mapM f = .ok rest := by
              refine (ih rest).2 ⟨by simpa using length, fun i x hx => ?_⟩
              simpa using parts (i + 1) x (by simpa using hx)
            rw [ha, hl, hb']
            rfl

theorem mapM_eq_error_iff (f : α → Outcome β) (l : List α) (e : Failure) :
    l.mapM f = .error e ↔
      ∃ (i : Nat) (a : α), l[i]? = some a ∧ f a = .error e ∧
        ∀ j < i, ∀ b, l[j]? = some b → ∃ r, f b = .ok r := by
  induction l with
  | nil =>
      rw [mapM_nil]
      simp
  | cons a l ih =>
      rw [mapM_cons]
      cases ha : f a with
      | error e' =>
          constructor
          · intro h
            have he : e' = e := by simpa using h
            exact ⟨0, a, rfl, he ▸ ha, fun j hj => absurd hj (Nat.not_lt_zero j)⟩
          · rintro ⟨i, x, hx, hf, before⟩
            cases i with
            | zero =>
                have hax : a = x := by simpa using hx
                rw [← hax, ha] at hf
                have he : e' = e := by simpa using hf
                rw [he]
            | succ i =>
                obtain ⟨r, hr⟩ := before 0 (Nat.succ_pos i) a rfl
                simp [ha] at hr
      | ok b =>
          refine (map_eq_error_iff _ _ _).trans (ih.trans ?_)
          constructor
          · rintro ⟨i, x, hx, hf, before⟩
            refine ⟨i + 1, x, by simpa using hx, hf, fun j hj y hy => ?_⟩
            cases j with
            | zero =>
                have hay : a = y := by simpa using hy
                exact ⟨b, hay ▸ ha⟩
            | succ j => exact before j (by omega) y (by simpa using hy)
          · rintro ⟨i, x, hx, hf, before⟩
            cases i with
            | zero =>
                have hax : a = x := by simpa using hx
                rw [← hax, ha] at hf
                cases hf
            | succ i =>
                refine ⟨i, x, by simpa using hx, hf, fun j hj y hy => ?_⟩
                exact before (j + 1) (by omega) y (by simpa using hy)

theorem mapM_agree {δ : Type} {f : α → Outcome β} {f' : α → Outcome γ} (g : β → δ) (h : γ → δ)
    {l : List α} (agree : ∀ a ∈ l, (f a).map g = (f' a).map h) :
    (l.mapM f).map (List.map g) = (l.mapM f').map (List.map h) := by
  induction l with
  | nil => rfl
  | cons a l ih =>
      have ha := agree a (by simp)
      have hl := ih fun b hb => agree b (by simp [hb])
      rw [mapM_cons, mapM_cons]
      cases hf : f a with
      | error e =>
          cases hf' : f' a with
          | error e' => simpa [hf, hf', Except.map] using ha
          | ok c => simp [hf, hf', Except.map] at ha
      | ok b =>
          cases hf' : f' a with
          | error e' => simp [hf, hf', Except.map] at ha
          | ok c =>
              have hbc : g b = h c := by simpa [hf, hf', Except.map] using ha
              have hcons : ∀ bs : List δ, (g b :: bs) = (h c :: bs) := fun bs => by rw [hbc]
              have step := congrArg (fun r => Except.map (fun bs => g b :: bs) r) hl
              simpa only [map_map, List.map_cons, hcons] using step

theorem failure?_mapM {f : α → Outcome β} {g : α → List Failure} {l : List α}
    (agree : ∀ a ∈ l, (f a).failure? = (g a).head?) :
    (l.mapM f).failure? = (l.flatMap g).head? := by
  induction l with
  | nil => rfl
  | cons a l ih =>
      have ha := agree a (by simp)
      have hl := ih fun b hb => agree b (by simp [hb])
      rw [mapM_cons, List.flatMap_cons, List.head?_append, ← ha, ← hl]
      cases f a with
      | error e => rfl
      | ok b => exact failure?_map _ _

end JsonShape.Outcome
