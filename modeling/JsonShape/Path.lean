/-!
Paths to places inside a value. Segments are listed outermost first; a path grows in front, as a failure
travels from the place where it arose to the whole value.
-/

namespace JsonShape

inductive Segment where
  | field (name : String)
  | index (i : Nat)
deriving DecidableEq

def Segment.text : Segment → String
  | field name => "." ++ name
  | index i => "[" ++ toString i ++ "]"

structure Path where
  segments : List Segment
deriving DecidableEq

namespace Path

def root : Path := ⟨[]⟩

def isRoot (p : Path) : Bool := p.segments.isEmpty

def length (p : Path) : Nat := p.segments.length

def first? (p : Path) : Option Segment := p.segments.head?

def last? (p : Path) : Option Segment := p.segments.getLast?

def within (p : Path) (s : Segment) : Path := ⟨s :: p.segments⟩

@[simp] theorem segments_within (p : Path) (s : Segment) : (p.within s).segments = s :: p.segments := rfl

@[simp] theorem length_root : root.length = 0 := rfl

@[simp] theorem length_within (p : Path) (s : Segment) : (p.within s).length = p.length + 1 := rfl

@[simp] theorem first?_within (p : Path) (s : Segment) : (p.within s).first? = some s := rfl

def text (p : Path) : String := String.join (p.segments.map Segment.text)

end Path

end JsonShape
