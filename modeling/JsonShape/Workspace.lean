import JsonShape.Registry.Validation
import JsonShape.Validation.Report

/-!
Workspaces: named handles on registries. Each handle has its own limit on nesting; handles that were
cloned from one another share one storage, so what is registered through one is found through all.
`Workspace.step` takes one step of a session.
-/

namespace JsonShape

structure Handle where
  storage : Nat
  limit : Nat
deriving DecidableEq

structure Workspace where
  storages : List Registry
  handles : Entries Handle
  inRange : ∀ e ∈ handles, e.2.storage < storages.length

inductive Step where
  | create (handle : String) (limit : Option Nat)
  | clone (source handle : String) (limit : Option Nat)
  | register (handle name : String) (schema : Schema)
  | get (handle name : String)
  | validate (handle name : String) (v : Value)
  | validateMany (handle name : String) (vs : List Value)
  | unresolved (handle : String)
  /-- A report on a slot with the registry at hand, the limit being given and not the handle's. -/
  | check (handle : String) (schema : Schema) (limit descents : Nat) (slot : Slot)

inductive Reply where
  | done
  | found (b : Bool)
  | validated (r : Except Registry.Refusal (Outcome Value))
  | validatedMany (r : Except Registry.Refusal (List (Outcome Value)))
  | refused (e : Registry.Refusal)
  | names (l : List String)
  | reported (r : Outcome Report)
  | unknownHandle (handle : String)

namespace Workspace

def defaultLimit : Nat := 128

def empty : Workspace := ⟨[], [], by simp⟩

def handle? (w : Workspace) (handle : String) : Option Handle := w.handles.lookup handle

def registry? (w : Workspace) (handle : String) : Option (Registry × Nat) :=
  (w.handle? handle).bind fun h => w.storages[h.storage]?.map fun r => (r, h.limit)

def schema? (w : Workspace) (handle name : String) : Option Schema :=
  (w.registry? handle).bind fun (r, _) => r.get? name

theorem storage_lt_of_handle? {w : Workspace} {handle : String} {h : Handle}
    (hh : w.handle? handle = some h) : h.storage < w.storages.length := by
  obtain ⟨l, m, hl, -⟩ := List.lookup_eq_some_iff.1 hh
  exact w.inRange (handle, h) (by simp [hl])

def bind (w : Workspace) (handle : String) (h : Handle) (lt : h.storage < w.storages.length) :
    Workspace where
  storages := w.storages
  handles := Entries.declare w.handles handle h
  inRange e he := by
    rcases Entries.mem_of_mem_declare he with rfl | he
    · exact lt
    · exact w.inRange e he

theorem handle?_bind (w : Workspace) (handle key : String) (h : Handle)
    (lt : h.storage < w.storages.length) :
    (w.bind handle h lt).handle? key = if key = handle then some h else w.handle? key :=
  Entries.lookup_declare w.handles handle key h

def allocate (w : Workspace) (r : Registry) : Workspace where
  storages := w.storages ++ [r]
  handles := w.handles
  inRange e he := by
    have := w.inRange e he
    simp only [List.length_append, List.length_singleton]
    omega

theorem handle?_allocate (w : Workspace) (r : Registry) (key : String) :
    (w.allocate r).handle? key = w.handle? key := rfl

def update (w : Workspace) (storage : Nat) (r : Registry) : Workspace where
  storages := w.storages.set storage r
  handles := w.handles
  inRange e he := by simpa using w.inRange e he

theorem handle?_update (w : Workspace) (storage : Nat) (r : Registry) (key : String) :
    (w.update storage r).handle? key = w.handle? key := rfl

def create (w : Workspace) (handle : String) (limit : Option Nat) : Workspace :=
  (w.allocate .empty).bind handle ⟨w.storages.length, limit.getD defaultLimit⟩
    (by simp [allocate])

def start (handle : String) : Workspace := empty.create handle none

def step (w : Workspace) : Step → Workspace × Reply
  | .create handle limit => (w.create handle limit, .done)
  | .clone source handle limit =>
    match h : w.handle? source with
    | none => (w, .unknownHandle source)
    | some s =>
      have lt := storage_lt_of_handle? h
      (w.bind handle ⟨s.storage, limit.getD s.limit⟩ lt, .done)
  | .register handle name schema =>
    match w.handle? handle, w.registry? handle with
    | some h, some (r, _) =>
      match r.register name schema with
      | .ok r => (w.update h.storage r, .done)
      | .error e => (w, .refused e)
    | _, _ => (w, .unknownHandle handle)
  | .get handle name =>
    match w.registry? handle with
    | some (r, _) => (w, .found (r.get? name).isSome)
    | none => (w, .unknownHandle handle)
  | .validate handle name v =>
    match w.registry? handle with
    | some (r, limit) => (w, .validated (r.validate limit name v))
    | none => (w, .unknownHandle handle)
  | .validateMany handle name vs =>
    match w.registry? handle with
    | some (r, limit) => (w, .validatedMany (r.validateMany limit name vs))
    | none => (w, .unknownHandle handle)
  | .unresolved handle =>
    match w.registry? handle with
    | some (r, _) => (w, .names r.unresolved)
    | none => (w, .unknownHandle handle)
  | .check handle schema limit descents slot =>
    match w.registry? handle with
    | some (r, _) =>
      (w, .reported (schema.report { registry := some r, maxDepth := limit } descents slot))
    | none => (w, .unknownHandle handle)

def run (w : Workspace) (steps : List Step) : Workspace :=
  steps.foldl (fun w s => (w.step s).1) w

end Workspace

end JsonShape
