import JsonShape.Workspace

/-!
Handles as write-once maps. A registration binds one name that was unbound, for all handles on one storage;
a creation or a clone replaces one handle; all else changes nothing. So bindings last, and two handles are
on one storage when the steps taken have linked them by clones.
-/

namespace JsonShape

def Step.through? : Step → Option String
  | .create _ _ => none
  | .clone source _ _ => some source
  | .register handle _ _ => some handle
  | .get handle _ => some handle
  | .validate handle _ _ => some handle
  | .validateMany handle _ _ => some handle
  | .unresolved handle => some handle
  | .check handle _ _ _ _ => some handle

def Step.Asks : Step → Prop
  | .create _ _ | .clone _ _ _ | .register _ _ _ => False
  | _ => True

/-- What a step makes of the links between handles: a fresh handle is linked with itself only, a clone
with what its source is linked with, whatever its name was linked with before. -/
def Step.relink (linked : String → String → Prop) : Step → String → String → Prop
  | .create handle _, a, b => a = handle ∧ b = handle ∨ a ≠ handle ∧ b ≠ handle ∧ linked a b
  | .clone source handle _, a, b =>
    linked source source ∧
        linked (if a = handle then source else a) (if b = handle then source else b) ∨
      ¬linked source source ∧ linked a b
  | _, a, b => linked a b

namespace Workspace

variable {w : Workspace} {handle : String} {h : Handle}

def storage? (w : Workspace) (handle : String) : Option Nat := (w.handle? handle).map Handle.storage

def Shares (w : Workspace) (a b : String) : Prop :=
  ∃ storage, w.storage? a = some storage ∧ w.storage? b = some storage

/-- The handles that are linked by clones after some steps of a session, told from the steps alone. -/
def linkedAfter (first : String) (steps : List Step) : String → String → Prop :=
  steps.foldl Step.relink fun a b => a = first ∧ b = first

def stored? (w : Workspace) (storage : Nat) (name : String) : Option Schema :=
  w.storages[storage]?.bind fun r => r.get? name

theorem registry?_eq (w : Workspace) (handle : String) : w.registry? handle =
    (w.handle? handle).bind fun h => w.storages[h.storage]?.map fun r => (r, h.limit) := rfl

theorem schema?_eq (w : Workspace) (handle name : String) :
    w.schema? handle name = (w.storage? handle).bind fun storage => w.stored? storage name := by
  unfold schema? registry? storage? stored?
  cases w.handle? handle with
  | none => rfl
  | some h =>
      cases hr : w.storages[h.storage]? with
      | none => simp [hr]
      | some r => simp [hr]

theorem storage?_lt {storage : Nat} (hs : w.storage? handle = some storage) :
    storage < w.storages.length := by
  obtain ⟨h, hh, rfl⟩ := Option.map_eq_some_iff.1 hs
  exact storage_lt_of_handle? hh

theorem registry?_of_handle? (hh : w.handle? handle = some h) :
    ∃ r, w.storages[h.storage]? = some r ∧ w.registry? handle = some (r, h.limit) := by
  have hr := List.getElem?_eq_getElem (storage_lt_of_handle? hh)
  exact ⟨_, hr, by simp [registry?_eq, hh, hr]⟩

/-! ### Each change -/

theorem storage?_bind (w : Workspace) (handle key : String) (lt : h.storage < w.storages.length) :
    (w.bind handle h lt).storage? key = if key = handle then some h.storage else w.storage? key := by
  rw [storage?, handle?_bind, apply_ite (Option.map Handle.storage)]
  rfl

theorem registry?_bind_other (h : Handle) {key : String} (lt : h.storage < w.storages.length)
    (ne : key ≠ handle) : registry? (w.bind handle h lt) key = w.registry? key := by
  rw [registry?_eq, registry?_eq, handle?_bind, if_neg ne]
  rfl

theorem registry?_allocate (w : Workspace) (r : Registry) (key : String) :
    registry? (w.allocate r) key = w.registry? key := by
  rw [registry?_eq, registry?_eq, handle?_allocate]
  cases hk : w.handle? key with
  | none => rfl
  | some k => simp [allocate, List.getElem?_append_left (storage_lt_of_handle? hk)]

theorem storage?_create (w : Workspace) (handle key : String) (limit : Option Nat) :
    (w.create handle limit).storage? key =
      if key = handle then some w.storages.length else w.storage? key := by
  rw [create, storage?_bind]
  rfl

theorem registry?_create_self (w : Workspace) (handle : String) (limit : Option Nat) :
    registry? (w.create handle limit) handle = some (.empty, limit.getD defaultLimit) := by
  rw [registry?_eq, create, handle?_bind, if_pos rfl]
  simp [bind, allocate]

theorem stored?_update {storage : Nat} (lt : storage < w.storages.length) (r : Registry) (s : Nat)
    (name : String) : (w.update storage r).stored? s name =
      if s = storage then r.get? name else w.stored? s name := by
  unfold stored? update
  rw [List.getElem?_set]
  by_cases hs : storage = s
  · simp [hs, hs ▸ lt]
  · simp [hs, Ne.symm hs]

/-! ### Each step -/

theorem step_clone {source : String} (hs : w.handle? source = some h) (handle : String)
    (limit : Option Nat) (lt : h.storage < w.storages.length) :
    w.step (.clone source handle limit) =
      (w.bind handle ⟨h.storage, limit.getD h.limit⟩ lt, .done) := by
  simp only [step]
  split
  next hn =>
    rw [hn] at hs
    cases hs
  next s hf =>
    rw [hf] at hs
    cases hs
    rfl

theorem step_unknown {s : Step} (through : s.through? = some handle) (unknown : w.handle? handle = none) :
    w.step s = (w, .unknownHandle handle) := by
  have hr : w.registry? handle = none := by rw [registry?_eq, unknown]; rfl
  cases s with
  | create other limit => cases through
  | clone source other limit =>
      cases through
      simp only [step]
      split
      · rfl
      next s hf =>
        rw [hf] at unknown
        cases unknown
  | register other name schema =>
      cases through
      simp only [step, unknown]
  | _ =>
      cases through
      simp only [step, hr]

theorem step_asks {s : Step} (asks : s.Asks) : (w.step s).1 = w := by
  cases s with
  | create handle limit => exact absurd asks id
  | clone source handle limit => exact absurd asks id
  | register handle name schema => exact absurd asks id
  | _ =>
      simp only [step]
      split <;> rfl

theorem step_register_of_bound {name : String} {bound : Schema} (hs : w.schema? handle name = some bound)
    (schema : Schema) :
    w.step (.register handle name schema) = (w, .refused (.alreadyBound name)) := by
  obtain ⟨⟨r, limit⟩, hr, hb⟩ := Option.bind_eq_some_iff.1 hs
  obtain ⟨h, hh, -⟩ := Option.bind_eq_some_iff.1 hr
  obtain ⟨r', -, hr'⟩ := registry?_of_handle? hh
  rw [hr'] at hr
  cases hr
  simp only [step, hh, hr', Registry.register_of_bound hb schema]

theorem step_register_of_unbound {name : String} (hh : w.handle? handle = some h)
    (unbound : w.schema? handle name = none) (schema : Schema) :
    ∃ r r', w.storages[h.storage]? = some r ∧ r.register name schema = .ok r' ∧
      w.step (.register handle name schema) = (w.update h.storage r', .done) := by
  obtain ⟨r, hs, hr⟩ := registry?_of_handle? hh
  have free : r.get? name = none := by
    rw [schema?, hr] at unbound
    exact unbound
  obtain ⟨r', hn⟩ := Registry.register_of_unbound free schema
  exact ⟨r, r', hs, hn, by simp only [step, hh, hr, hn]⟩

inductive Change (w : Workspace) : Step → Workspace → Prop where
  | create (handle : String) (limit : Option Nat) : Change w (.create handle limit) (w.create handle limit)
  | clone {source : String} {h : Handle} (known : w.handle? source = some h) (handle : String)
      (limit : Option Nat) (lt : h.storage < w.storages.length) :
      Change w (.clone source handle limit) (w.bind handle ⟨h.storage, limit.getD h.limit⟩ lt)
  | register {handle name : String} {schema : Schema} {h : Handle} {r r' : Registry}
      (found : w.storages[h.storage]? = some r) (new : r.register name schema = .ok r') :
      Change w (.register handle name schema) (w.update h.storage r')
  | refuse (handle name : String) (schema : Schema) : Change w (.register handle name schema) w
  | ask {s : Step} (asks : s.Asks) : Change w s w
  | miss {s : Step} {handle : String} (through : s.through? = some handle)
      (unknown : w.handle? handle = none) : Change w s w

theorem change_step (w : Workspace) (s : Step) : Change w s (w.step s).1 := by
  cases s with
  | create handle limit => exact .create handle limit
  | clone source handle limit =>
      cases hs : w.handle? source with
      | none =>
          rw [step_unknown rfl hs]
          exact .miss rfl hs
      | some h =>
          have lt := storage_lt_of_handle? hs
          rw [step_clone hs handle limit lt]
          exact .clone hs handle limit lt
  | register handle name schema =>
      cases hh : w.handle? handle with
      | none =>
          rw [step_unknown rfl hh]
          exact .miss rfl hh
      | some h =>
          cases hb : w.schema? handle name with
          | none =>
              obtain ⟨r, r', found, new, hs⟩ := step_register_of_unbound hh hb schema
              rw [hs]
              exact .register found new
          | some bound =>
              rw [step_register_of_bound hb]
              exact .refuse handle name schema
  | get | validate | validateMany | unresolved | check =>
      rw [step_asks (by exact trivial)]
      exact .ask trivial

/-! ### Bindings last -/

theorem Change.stored? {s : Step} {w' : Workspace} (change : Change w s w') {storage : Nat} {name : String}
    {schema : Schema} (bound : w.stored? storage name = some schema) :
    w'.stored? storage name = some schema := by
  cases change with
  | create handle limit =>
      obtain ⟨r, hr, hb⟩ := Option.bind_eq_some_iff.1 bound
      have lt := (List.getElem?_eq_some_iff.1 hr).1
      exact Option.bind_eq_some_iff.2 ⟨r, by rwa [← List.getElem?_append_left lt] at hr, hb⟩
  | clone => exact bound
  | @register _ key _ h r r' found new =>
      have lt := (List.getElem?_eq_some_iff.1 found).1
      rw [stored?_update lt]
      split
      next hs =>
        subst hs
        have own : r.get? name = some schema := by simpa [Workspace.stored?, found] using bound
        have ne : name ≠ key := by
          rintro rfl
          rw [Registry.get?_eq_none_of_register new] at own
          cases own
        rw [Registry.get?_of_register new, if_neg ne, own]
      · exact bound
  | refuse => exact bound
  | ask => exact bound
  | miss => exact bound

theorem stored?_run {storage : Nat} {name : String} {schema : Schema}
    (bound : w.stored? storage name = some schema) (steps : List Step) :
    (w.run steps).stored? storage name = some schema := by
  induction steps generalizing w with
  | nil => exact bound
  | cons s steps ih => exact ih ((change_step w s).stored? bound)

theorem schema?_run_of_storage {name : String} {schema : Schema}
    (bound : w.schema? handle name = some schema) {steps : List Step} {other : String}
    (same : (w.run steps).storage? other = w.storage? handle) :
    (w.run steps).schema? other name = some schema := by
  rw [schema?_eq] at bound
  obtain ⟨storage, hs, hb⟩ := Option.bind_eq_some_iff.1 bound
  rw [schema?_eq, same, hs]
  exact stored?_run hb steps

/-! ### Handles on one storage -/

theorem shares_self (known : w.handle? handle = some h) : w.Shares handle handle :=
  ⟨h.storage, by rw [storage?, known]; rfl, by rw [storage?, known]; rfl⟩

theorem not_shares_unknown (unknown : w.handle? handle = none) : ¬w.Shares handle handle := by
  rintro ⟨storage, hs, -⟩
  rw [storage?, unknown] at hs
  cases hs

theorem shares_create (w : Workspace) (handle : String) (limit : Option Nat) (a b : String) :
    (w.create handle limit).Shares a b ↔
      a = handle ∧ b = handle ∨ a ≠ handle ∧ b ≠ handle ∧ w.Shares a b := by
  have fresh : ∀ key, w.storage? key ≠ some w.storages.length :=
    fun key hk => Nat.lt_irrefl _ (storage?_lt hk)
  unfold Shares
  rw [storage?_create, storage?_create]
  by_cases ha : a = handle
  · by_cases hb : b = handle
    · simp [ha, hb]
    · simp [ha, hb, fresh b]
  · by_cases hb : b = handle
    · simp [ha, hb, fresh a]
    · simp [ha, hb]

theorem shares_clone {source : String} (known : w.handle? source = some h) (handle : String) (limit : Nat)
    (lt : h.storage < w.storages.length) (a b : String) :
    (w.bind handle ⟨h.storage, limit⟩ lt).Shares a b ↔
      w.Shares (if a = handle then source else a) (if b = handle then source else b) := by
  have via : ∀ key, (w.bind handle ⟨h.storage, limit⟩ lt).storage? key =
      w.storage? (if key = handle then source else key) := by
    intro key
    rw [storage?_bind]
    by_cases hk : key = handle
    · rw [if_pos hk, if_pos hk, storage?, known]
      rfl
    · rw [if_neg hk, if_neg hk]
  unfold Shares
  rw [via, via]

theorem Change.shares {s : Step} {w' : Workspace} (change : Change w s w') (a b : String) :
    w'.Shares a b ↔ s.relink w.Shares a b := by
  cases change with
  | create handle limit => exact shares_create w handle limit a b
  | clone known handle limit lt =>
      have linked := shares_self known
      rw [shares_clone known]
      simp [Step.relink, linked]
  | register => exact Iff.rfl
  | refuse => exact Iff.rfl
  | @ask s asks =>
      cases s with
      | create | clone | register => exact absurd asks id
      | get | validate | validateMany | unresolved | check => exact Iff.rfl
  | @miss s handle through unknown =>
      have unlinked := not_shares_unknown unknown
      cases s with
      | create => cases through
      | clone =>
          cases through
          simp [Step.relink, unlinked]
      | register | get | validate | validateMany | unresolved | check => exact Iff.rfl

theorem shares_run (w : Workspace) (steps : List Step) :
    (w.run steps).Shares = steps.foldl Step.relink w.Shares := by
  induction steps generalizing w with
  | nil => rfl
  | cons s steps ih =>
      have step : (w.step s).1.Shares = Step.relink w.Shares s :=
        funext fun a => funext fun b => propext ((change_step w s).shares a b)
      rw [List.foldl_cons, ← step]
      exact ih (w.step s).1

theorem shares_start (first : String) : (start first).Shares = fun a b => a = first ∧ b = first := by
  funext a b
  have none : ¬empty.Shares a b := by
    rintro ⟨storage, hs, -⟩
    cases hs
  rw [start, shares_create]
  simp [none]

/-! ### What each step does -/

theorem schema?_update {r r' : Registry} {storage : Nat} {name : String} {schema : Schema}
    (found : w.storages[storage]? = some r) (new : r.register name schema = .ok r') (other key : String) :
    (w.update storage r').schema? other key =
      if w.storage? other = some storage ∧ key = name then some schema else w.schema? other key := by
  have lt := (List.getElem?_eq_some_iff.1 found).1
  have same : (w.update storage r').storage? other = w.storage? other := rfl
  rw [schema?_eq, schema?_eq, same]
  cases ho : w.storage? other with
  | none => simp
  | some own =>
      rw [Option.bind_some, Option.bind_some, stored?_update lt]
      by_cases hs : own = storage
      · subst hs
        simp [Registry.get?_of_register new, stored?, found]
      · simp [hs]

/-- What each step does to the handles of a workspace. -/
structure StepLaws (w : Workspace) : Prop where
  /-- A name that is unbound through a handle can be registered through it: it is then bound through the
  handles on the same storage, and nothing else has changed. -/
  binds : ∀ handle name schema, (w.handle? handle).isSome → w.schema? handle name = none →
    ∃ w', w.step (.register handle name schema) = (w', .done) ∧
      (∀ other, w'.handle? other = w.handle? other) ∧
      ∀ other key, w'.schema? other key =
        if w.storage? other = w.storage? handle ∧ key = name then some schema else w.schema? other key
  refuses : ∀ handle name schema bound, w.schema? handle name = some bound →
    w.step (.register handle name schema) = (w, .refused (.alreadyBound name))
  /-- What is bound stays bound, through every handle that is ever on the same storage. -/
  lasts : ∀ handle name schema, w.schema? handle name = some schema → ∀ steps other,
    (w.run steps).storage? other = w.storage? handle → (w.run steps).schema? other name = some schema
  /-- A fresh handle is empty, on a storage of its own, and all other handles are what they were. -/
  creates : ∀ handle limit, ∃ w', w.step (.create handle limit) = (w', .done) ∧
    w'.registry? handle = some (.empty, limit.getD defaultLimit) ∧
    ∀ other, other ≠ handle → w'.storage? other ≠ w'.storage? handle ∧
      w'.handle? other = w.handle? other ∧ w'.registry? other = w.registry? other
  /-- A clone is on the storage of its source, and all other handles are what they were. -/
  clones : ∀ source handle limit r own, w.registry? source = some (r, own) →
    ∃ w', w.step (.clone source handle limit) = (w', .done) ∧
      w'.storage? handle = w.storage? source ∧ w'.registry? handle = some (r, limit.getD own) ∧
      ∀ other, other ≠ handle → w'.handle? other = w.handle? other ∧ w'.registry? other = w.registry? other
  asks : ∀ s : Step, s.Asks → (w.step s).1 = w
  answers : ∀ handle name, (w.handle? handle).isSome →
    (w.step (.get handle name)).2 = .found (w.schema? handle name).isSome
  validates : ∀ handle name r limit, w.registry? handle = some (r, limit) →
    (∀ v, (w.step (.validate handle name v)).2 = .validated (r.validate limit name v)) ∧
      ∀ vs, (w.step (.validateMany handle name vs)).2 = .validatedMany (r.validateMany limit name vs)
  /-- Values are validated against what the name is bound to through the handle. -/
  resolves : ∀ handle name r limit, w.registry? handle = some (r, limit) →
    (∀ schema, w.schema? handle name = some schema →
      (∀ v, r.validate limit name v = .ok (r.accept limit schema v)) ∧
        ∀ vs, r.validateMany limit name vs = .ok (vs.map (r.accept limit schema))) ∧
      (w.schema? handle name = none →
        (∀ v, r.validate limit name v = .error (.unbound name)) ∧
          ∀ vs, r.validateMany limit name vs = .error (.unbound name))
  misses : ∀ (s : Step) handle, s.through? = some handle → w.handle? handle = none →
    w.step s = (w, .unknownHandle handle)

theorem stepLaws (w : Workspace) : w.StepLaws where
  binds handle name schema known unbound := by
    obtain ⟨h, hh⟩ := Option.isSome_iff_exists.1 known
    obtain ⟨r, r', found, new, hs⟩ := step_register_of_unbound hh unbound schema
    have storage : w.storage? handle = some h.storage := by rw [storage?, hh]; rfl
    refine ⟨_, hs, handle?_update w h.storage r', fun other key => ?_⟩
    rw [schema?_update found new, storage]
  refuses handle name schema bound hb := step_register_of_bound hb schema
  lasts handle name schema bound steps other same := schema?_run_of_storage bound same
  creates handle limit := by
    refine ⟨_, rfl, registry?_create_self w handle limit, fun other ne => ⟨?_, ?_, ?_⟩⟩
    · rw [storage?_create, storage?_create, if_neg ne, if_pos rfl]
      exact fun hs => Nat.lt_irrefl _ (storage?_lt hs)
    · rw [create, handle?_bind, if_neg ne, handle?_allocate]
    · rw [create, registry?_bind_other _ _ ne, registry?_allocate]
  clones source handle limit r own hs := by
    obtain ⟨h, hh, hr⟩ := Option.bind_eq_some_iff.1 hs
    obtain ⟨r', hr', he⟩ := Option.map_eq_some_iff.1 hr
    cases he
    have lt := storage_lt_of_handle? hh
    refine ⟨_, step_clone hh handle limit lt, ?_, ?_, fun other ne => ⟨?_, ?_⟩⟩
    · rw [storage?_bind, if_pos rfl, storage?, hh]
      rfl
    · rw [registry?_eq, handle?_bind, if_pos rfl]
      exact Option.map_eq_some_iff.2 ⟨r, hr', rfl⟩
    · rw [handle?_bind, if_neg ne]
    · exact registry?_bind_other ⟨h.storage, limit.getD h.limit⟩ lt ne
  asks s asks := step_asks asks
  answers handle name known := by
    obtain ⟨h, hh⟩ := Option.isSome_iff_exists.1 known
    obtain ⟨r, -, hr⟩ := registry?_of_handle? hh
    simp only [step, schema?, hr]
    rfl
  validates handle name r limit hr := by
    constructor
    · intro v
      simp only [step, hr]
    · intro vs
      simp only [step, hr]
  resolves handle name r limit hr := by
    have same : w.schema? handle name = r.get? name := by rw [schema?, hr]; rfl
    rw [same]
    exact ⟨fun schema bound => ⟨Registry.validate_of_get? bound limit, Registry.validateMany_of_get? bound limit⟩,
      fun free => ⟨Registry.validate_of_unbound free limit, Registry.validateMany_of_unbound free limit⟩⟩
  misses s handle through unknown := step_unknown through unknown

/-- After any steps of a session, handles are write-once maps: each further step does what `StepLaws` says,
and two handles are on one storage exactly when the steps taken have linked them by clones. -/
theorem handles_share_by_cloning (first : String) (steps : List Step) :
    ((start first).run steps).StepLaws ∧
      ∀ a b, ((start first).run steps).Shares a b ↔ linkedAfter first steps a b := by
  refine ⟨stepLaws _, fun a b => ?_⟩
  rw [shares_run, shares_start]
  rfl

theorem handles_share_by_cloning_replaced :
    let w := (start "r").run [.clone "r" "s" (some 3), .register "s" "A" .string, .create "r" none,
      .clone "s" "t" none]
    w.Shares "s" "t" ∧ ¬w.Shares "r" "s" ∧ w.schema? "t" "A" = some .string ∧ w.schema? "r" "A" = none ∧
      w.step (.register "t" "A" .any) = (w, .refused (.alreadyBound "A")) ∧
      (w.step (.validate "t" "A" (.string "a"))).2 = .validated (.ok (.ok (.string "a"))) := by
  intro w
  obtain ⟨laws, linked⟩ := handles_share_by_cloning "r" [.clone "r" "s" (some 3),
    .register "s" "A" .string, .create "r" none, .clone "s" "t" none]
  have bound : w.schema? "t" "A" = some .string := rfl
  obtain ⟨r, known⟩ : ∃ r, w.registry? "t" = some (r, 3) := ⟨_, rfl⟩
  refine ⟨?_, ?_, bound, rfl, laws.refuses "t" "A" .any .string bound, ?_⟩
  · exact (linked "s" "t").2 (by simp [linkedAfter, Step.relink])
  · exact fun shared => absurd ((linked "r" "s").1 shared) (by simp [linkedAfter, Step.relink])
  · rw [(laws.validates "t" "A" r 3 known).1, ((laws.resolves "t" "A" r 3 known).1 .string bound).1]
    rfl

end Workspace

end JsonShape
