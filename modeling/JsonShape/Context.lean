import JsonShape.Failure
import JsonShape.Registry.Basic

/-!
Validation contexts: the registry for references, the depth reached and the greatest depth allowed.
-/

namespace JsonShape

structure Context where
  registry : Option Registry := none
  depth : Nat := 0
  maxDepth : Nat := 128

namespace Context

def remaining (c : Context) : Nat := c.maxDepth - c.depth

def descend (c : Context) : Outcome Context :=
  if c.depth < c.maxDepth then .ok { c with depth := c.depth + 1 }
  else .error (.tooDeep c.maxDepth)

def descendBy : (n : Nat) → Context → Outcome Context
  | 0, c => .ok c
  | n + 1, c =>
    match c.descend with
    | .ok child => descendBy n child
    | .error f => .error f

theorem descend_of_remaining_eq_zero {c : Context} (h : c.remaining = 0) :
    c.descend = .error (.tooDeep c.maxDepth) := by
  unfold remaining at h
  exact if_neg (by omega)

theorem descend_of_remaining_pos {c : Context} (h : 0 < c.remaining) :
    c.descend = .ok { c with depth := c.depth + 1 } := by
  unfold remaining at h
  exact if_pos (by omega)

def text (c : Context) : String :=
  "ValidationContext \x7b has_registry: " ++ (if c.registry.isSome then "true" else "false") ++
    ", depth: " ++ toString c.depth ++ ", max_depth: " ++ toString c.maxDepth ++ " \x7d"

end Context

end JsonShape
