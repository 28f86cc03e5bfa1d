import JsonShape.Proofs.Resolution
import JsonShape.Proofs.Value.Navigation
import JsonShape.Proofs.Views

/-!
Two runs of a schema on one slot, in two contexts. A tie says what a failure of the first run tells of the
second. `Lockstep` says of a relation of contexts that the parts of a schema meet related contexts again,
and that levels and references are there in both alike, as far as the tie asks. The main statements are
that both views of a schema are tied in related contexts.
-/

namespace JsonShape

/-- What a failure of one run tells of another run: of the failure of that one, or of `none` where it
succeeds. -/
structure Tie where
  holds : Failure → Option Failure → Prop
  refl : ∀ f, holds f (some f)
  within : ∀ {f g} s, holds f g → holds (f.within s) (g.map fun g => g.within s)
  lost : ∀ {f} g, holds f none → holds f g

def Tie.unless (codes : Code → Prop) : Tie where
  holds f g := codes f.code ∨ g = some f
  refl _ := .inr rfl
  within s h := h.imp id fun hg => by rw [hg]; rfl
  lost _ h := .inl (h.resolve_right nofun)

def Tie.same : Tie where
  holds f g := g = some f
  refl _ := rfl
  within s h := by rw [h]; rfl
  lost _ h := nomatch h

namespace Outcome

variable {α β : Type} {tie : Tie}

/-- Where the first outcome succeeds, the second is the same; where it fails, the tie holds. -/
def Tied (tie : Tie) (r r' : Outcome α) : Prop :=
  match r with
  | .ok a => r' = .ok a
  | .error f => tie.holds f r'.failure?

theorem tied_rfl (r : Outcome α) : Tied tie r r := by
  cases r with
  | error f => exact tie.refl f
  | ok a => rfl

theorem tied_error {f : Failure} {step' : Outcome β} {r' : Outcome α}
    (failed : tie.holds f step'.failure?) (same : ∀ g, step' = .error g → r' = .error g) :
    Tied tie (.error f) r' := by
  cases step' with
  | error g =>
      rw [same g rfl]
      exact failed
  | ok b => exact tie.lost _ failed

theorem Tied.map (g : α → β) {r r' : Outcome α} (h : Tied tie r r') :
    Tied tie (r.map g) (r'.map g) := by
  cases r with
  | error f => exact tied_error h fun e he => by rw [he]; rfl
  | ok a =>
      have hr : r' = .ok a := h
      rw [hr]
      rfl

theorem Tied.under (s : Segment) {r r' : Outcome α} (h : Tied tie r r') :
    Tied tie (under s r) (under s r') := by
  cases r with
  | error f =>
      change tie.holds (f.within s) (failure? (Outcome.under s r'))
      rw [failure?_under]
      exact tie.within s h
  | ok a =>
      have hr : r' = .ok a := h
      rw [hr]
      rfl

theorem tied_mapM {f f' : α → Outcome β} {l : List α} (h : ∀ a ∈ l, Tied tie (f a) (f' a)) :
    Tied tie (l.mapM f) (l.mapM f') := by
  induction l with
  | nil => exact tied_rfl _
  | cons a l ih =>
      have ha := h a (by simp)
      rw [mapM_cons, mapM_cons]
      cases hf : f a with
      | error e =>
          rw [hf] at ha
          exact tied_error ha fun g hg => by rw [hg]
      | ok b =>
          have hf' : f' a = .ok b := by rwa [hf] at ha
          rw [hf']
          exact (ih fun d hd => h d (by simp [hd])).map _

theorem eq_of_tied {r r' : Outcome α} (h : Tied .same r r') : r' = r := by
  cases r with
  | error f => exact (failure?_eq_some_iff r' f).1 h
  | ok a => exact h

end Outcome

namespace Schema

open Outcome (Tied tied_rfl tied_error tied_mapM)
open Value (child?_field)

/-- Related contexts let a schema and its parts run alike on a slot: the outer parts in the same contexts,
the second schema of an `and` on what the first returned, the inner parts and the targets of references in
contexts that are related one level further in. -/
structure Lockstep (tie : Tie) (Related : Context → Context → Schema → Slot → Prop) : Prop where
  outer : ∀ {c c' whole part slot}, Related c c' whole slot → part ∈ whole.outerParts →
    Related c c' part slot
  second : ∀ {c c' first second slot narrowed}, Related c c' (and first second) slot →
    first.validate c slot = .ok narrowed → Related c c' second narrowed
  alternative : ∀ {c c' first second slot} f, Related c c' (or first second) slot →
    ¬tie.holds f none
  limit : ∀ {c c' whole v own f}, Related c c' whole (some v) → v.properties? = some own →
    c.descend = .error f → tie.holds f c'.descend.failure?
  inner : ∀ {c c' child whole v own}, Related c c' whole (some v) → v.properties? = some own →
    c.descend = .ok child → ∃ child', c'.descend = .ok child' ∧
      ∀ part ∈ whole.innerParts, ∀ s, Related child child' part (v.child? s)
  unresolved : ∀ {c c' name slot f}, Related c c' (ref name) slot → c.resolve name = .error f →
    tie.holds f (c'.resolve name).failure?
  target : ∀ {c c' child name target slot}, Related c c' (ref name) slot →
    c.resolve name = .ok (target, child) →
    ∃ child', c'.resolve name = .ok (target, child') ∧ Related child child' target slot

namespace Lockstep

variable {tie : Tie} {Related : Context → Context → Schema → Slot → Prop} {c c' : Context}
  {schema : Schema} {slot : Slot}

theorem item (lockstep : Lockstep tie Related) {item : Schema} {items : List Value}
    {child : Context} (related : Related c c' (array item) (some (.array items)))
    (descend : c.descend = .ok child) :
    ∃ child', c'.descend = .ok child' ∧ ∀ e ∈ items.zipIdx, Related child child' item (some e.1) := by
  obtain ⟨child', descend', inner⟩ := lockstep.inner related rfl descend
  refine ⟨child', descend', fun e he => ?_⟩
  have hi : Value.child? (.array items) (.index e.2) = some e.1 := List.mem_zipIdx_iff_getElem?.1 he
  rw [← hi]
  exact inner item (List.mem_singleton_self item) (.index e.2)

theorem validate_of_below (lockstep : Lockstep tie Related)
    (below : ∀ child, c.descend = .ok child → ∀ child' (schema : Schema) slot,
      Related child child' schema slot →
        Tied tie (schema.validate child slot) (schema.validate child' slot))
    (related : Related c c' schema slot) :
    Tied tie (schema.validate c slot) (schema.validate c' slot) := by
  induction schema generalizing slot with
  | string =>
      rw [validate_string, validate_string]
      exact tied_rfl _
  | number =>
      rw [validate_number, validate_number]
      exact tied_rfl _
  | boolean =>
      rw [validate_boolean, validate_boolean]
      exact tied_rfl _
  | any =>
      rw [validate_any, validate_any]
      exact tied_rfl _
  | exact expected =>
      rw [validate_exact, validate_exact]
      exact tied_rfl _
  | oneOf allowed =>
      rw [validate_oneOf, validate_oneOf]
      exact tied_rfl _
  | keyOf keys =>
      rw [validate_keyOf, validate_keyOf]
      exact tied_rfl _
  | array item =>
      rw [validate_array, validate_array]
      cases hi : Checks.items slot with
      | error f => exact tied_rfl _
      | ok items =>
          obtain rfl := (Checks.items_eq_ok_iff slot items).1 hi
          cases items with
          | nil => exact tied_rfl _
          | cons v items =>
              cases hc : c.descend with
              | error f =>
                  exact tied_error (lockstep.limit related rfl hc) fun g hg => by rw [hg]
              | ok child =>
                  obtain ⟨child', hc', items⟩ := lockstep.item related hc
                  rw [hc']
                  refine (tied_mapM fun e he => ?_).map _
                  exact ((below child hc child' item _ (items e he)).map _).under _
  | record declarations =>
      rw [validate_record, validate_record]
      cases hp : Checks.properties slot with
      | error f => exact tied_rfl _
      | ok own =>
          obtain ⟨v, rfl, properties⟩ := (Checks.properties_eq_ok_iff slot own).1 hp
          dsimp only
          split
          · exact tied_rfl _
          · cases hc : c.descend with
            | error f =>
                exact tied_error (lockstep.limit related properties hc) fun g hg => by rw [hg]
            | ok child =>
                obtain ⟨child', hc', inner⟩ := lockstep.inner related properties hc
                rw [hc']
                refine (tied_mapM fun d hd => ?_).map _
                have field := inner d.2 (innerPart_of_field hd) (.field d.1)
                rw [child?_field properties] at field
                exact ((below child hc child' d.2 _ field).map _).under _
  | and first second ihFirst ihSecond =>
      rw [validate_and, validate_and]
      have tied := ihFirst (lockstep.outer related (by simp [outerParts]))
      cases hf : first.validate c slot with
      | error f =>
          rw [hf] at tied
          exact tied_error tied fun g hg => by rw [hg]
      | ok narrowed =>
          have hf' : first.validate c' slot = .ok narrowed := by rwa [hf] at tied
          rw [hf']
          exact ihSecond (lockstep.second related hf)
  | or first second ihFirst ihSecond =>
      -- A failure that the tie holds of `none` would let one run try the second schema alone.
      rw [validate_or, validate_or]
      have tied := ihFirst (lockstep.outer related (by simp [outerParts]))
      cases hf : first.validate c slot with
      | error f =>
          cases hf' : first.validate c' slot with
          | error g => exact ihSecond (lockstep.outer related (by simp [outerParts]))
          | ok r =>
              rw [hf, hf'] at tied
              exact absurd tied (lockstep.alternative f related)
      | ok r =>
          have hf' : first.validate c' slot = .ok r := by rwa [hf] at tied
          rw [hf']
          exact tied_rfl _
  | optional inner ih =>
      rw [validate_optional, validate_optional]
      cases slot with
      | none => exact tied_rfl _
      | some v => exact ih (lockstep.outer related (List.mem_singleton_self inner))
  | nullable inner ih =>
      by_cases hn : slot = some .null
      · rw [hn, validate_nullable_null, validate_nullable_null]
        exact tied_rfl _
      · rw [validate_nullable c inner hn, validate_nullable c' inner hn]
        exact ih (lockstep.outer related (List.mem_singleton_self inner))
  | union discriminant declarations ih =>
      rw [validate_union, validate_union]
      split
      · exact tied_rfl _
      next tag ht =>
        cases hv : (Entries.standing declarations).lookup tag with
        | none => exact tied_rfl _
        | some variant =>
            exact ih _ (Entries.mem_of_lookup_standing hv)
              (lockstep.outer related (outerPart_of_variant hv))
      · exact tied_rfl _
  | ref name =>
      rw [validate_ref_eq, validate_ref_eq]
      cases hr : c.resolve name with
      | error f => exact tied_error (lockstep.unresolved related hr) fun g hg => by rw [hg]
      | ok resolved =>
          obtain ⟨child', hr', target⟩ := lockstep.target related hr
          rw [hr']
          exact below _ (Context.resolve_eq_ok_iff.1 hr).2 child' _ _ target
  | stored schema ih =>
      rw [validate_stored, validate_stored]
      exact ih (lockstep.outer related (List.mem_singleton_self schema))

theorem validate (lockstep : Lockstep tie Related) (related : Related c c' schema slot) :
    Tied tie (schema.validate c slot) (schema.validate c' slot) := by
  induction c using Context.induction generalizing c' schema slot with
  | step c below =>
      exact lockstep.validate_of_below (fun child hc _ _ _ h => below child hc h) related

theorem interpret_of_below (lockstep : Lockstep tie Related)
    (below : ∀ child, c.descend = .ok child → ∀ child' (schema : Schema) slot,
      Related child child' schema slot →
        Tied tie (schema.interpret child slot) (schema.interpret child' slot))
    (related : Related c c' schema slot) :
    Tied tie (schema.interpret c slot) (schema.interpret c' slot) := by
  induction schema generalizing slot with
  | string =>
      rw [interpret_string, interpret_string]
      exact tied_rfl _
  | number =>
      rw [interpret_number, interpret_number]
      exact tied_rfl _
  | boolean =>
      rw [interpret_boolean, interpret_boolean]
      exact tied_rfl _
  | any =>
      rw [interpret_any, interpret_any]
      exact tied_rfl _
  | exact expected =>
      rw [interpret_exact, interpret_exact]
      exact tied_rfl _
  | oneOf allowed =>
      rw [interpret_oneOf, interpret_oneOf]
      exact tied_rfl _
  | keyOf keys =>
      rw [interpret_keyOf, interpret_keyOf]
      exact tied_rfl _
  | array item =>
      rw [interpret_array, interpret_array]
      cases hi : Checks.items slot with
      | error f => exact tied_rfl _
      | ok items =>
          obtain rfl := (Checks.items_eq_ok_iff slot items).1 hi
          cases items with
          | nil => exact tied_rfl _
          | cons v items =>
              cases hc : c.descend with
              | error f =>
                  exact tied_error (lockstep.limit related rfl hc) fun g hg => by rw [hg]
              | ok child =>
                  obtain ⟨child', hc', items⟩ := lockstep.item related hc
                  rw [hc']
                  refine (tied_mapM fun e he => ?_).map _
                  exact (below child hc child' item _ (items e he)).under _
  | and first second _ ihSecond =>
      rw [interpret_and, interpret_and]
      have part : Related c c' first slot := lockstep.outer related (by simp [outerParts])
      have tied := lockstep.validate part
      cases hf : first.validate c slot with
      | error f =>
          rw [hf] at tied
          exact tied_error tied fun g hg => by rw [hg]
      | ok narrowed =>
          have hf' : first.validate c' slot = .ok narrowed := by rwa [hf] at tied
          rw [hf']
          exact ihSecond (lockstep.second related hf)
  | or first second ihFirst ihSecond =>
      rw [interpret_or, interpret_or]
      have tied := ihFirst (lockstep.outer related (by simp [outerParts]))
      cases hf : first.interpret c slot with
      | error f =>
          cases hf' : first.interpret c' slot with
          | error g => exact (ihSecond (lockstep.outer related (by simp [outerParts]))).map _
          | ok t =>
              rw [hf, hf'] at tied
              exact absurd tied (lockstep.alternative f related)
      | ok t =>
          have hf' : first.interpret c' slot = .ok t := by rwa [hf] at tied
          rw [hf']
          exact tied_rfl _
  | optional inner ih =>
      rw [interpret_optional, interpret_optional]
      cases slot with
      | none => exact tied_rfl _
      | some v => exact (ih (lockstep.outer related (List.mem_singleton_self inner))).map _
  | nullable inner ih =>
      by_cases hn : slot = some .null
      · rw [hn, interpret_nullable_null, interpret_nullable_null]
        exact tied_rfl _
      · rw [interpret_nullable c inner hn, interpret_nullable c' inner hn]
        exact (ih (lockstep.outer related (List.mem_singleton_self inner))).map _
  | record declarations =>
      rw [interpret_record, interpret_record]
      exact (lockstep.validate related).map _
  | union discriminant declarations _ =>
      rw [interpret_union, interpret_union]
      exact (lockstep.validate related).map _
  | ref name =>
      rw [interpret_ref, interpret_ref]
      exact (lockstep.validate related).map _
  | stored schema _ =>
      rw [interpret_stored, interpret_stored]
      exact (lockstep.validate related).map _

theorem interpret (lockstep : Lockstep tie Related) (related : Related c c' schema slot) :
    Tied tie (schema.interpret c slot) (schema.interpret c' slot) := by
  induction c using Context.induction generalizing c' schema slot with
  | step c below =>
      exact lockstep.interpret_of_below (fun child hc _ _ _ h => below child hc h) related

end Lockstep

end Schema

end JsonShape
