import JsonShape.Path
import JsonShape.Proofs.Value.Indexed

/-!
The text of a path. Every segment begins with a point or an opening bracket, and an index ends with a closing
one. Where no field name holds a point or an opening bracket, the text can be cut into segments in one way only,
and so tells the path.
-/

namespace JsonShape

def IsMark (c : Char) : Prop := c = '.' ∨ c = '['

def Segment.Ordinary : Segment → Prop
  | .field name => ∀ c ∈ name.toList, ¬IsMark c
  | .index _ => True

def Path.Ordinary (p : Path) : Prop := ∀ s ∈ p.segments, s.Ordinary

/-- A text that goes on with a character that stops the part before it, or ends. -/
def Stopped (stop : Char → Prop) (text : List Char) : Prop := ∀ c ∈ text.head?, stop c

theorem stopped_nil (stop : Char → Prop) : Stopped stop [] := nofun

theorem stopped_cons {stop : Char → Prop} {c : Char} (stops : stop c) (text : List Char) :
    Stopped stop (c :: text) := by
  rintro d ⟨⟩
  exact stops

theorem append_inj_of_stopped {stop : Char → Prop} {a b x y : List Char} (freeA : ∀ c ∈ a, ¬stop c)
    (freeB : ∀ c ∈ b, ¬stop c) (stoppedX : Stopped stop x) (stoppedY : Stopped stop y)
    (same : a ++ x = b ++ y) : a = b ∧ x = y := by
  induction a generalizing b with
  | nil =>
      cases b with
      | nil => exact ⟨rfl, same⟩
      | cons c b =>
          obtain rfl : x = c :: b ++ y := same
          exact absurd (stoppedX c rfl) (freeB c (List.mem_cons_self ..))
  | cons c a ih =>
      cases b with
      | nil =>
          obtain rfl : c :: a ++ x = y := same
          exact absurd (stoppedY c rfl) (freeA c (List.mem_cons_self ..))
      | cons d b =>
          obtain ⟨rfl, rest⟩ := List.cons.inj same
          obtain ⟨rfl, rfl⟩ := ih (fun e he => freeA e (List.mem_cons_of_mem c he))
            (fun e he => freeB e (List.mem_cons_of_mem c he)) rest
          exact ⟨rfl, rfl⟩

theorem Segment.toList_text_field (name : String) : (field name).text.toList = '.' :: name.toList := by
  simp [text]

theorem Segment.toList_text_index (i : Nat) :
    (index i).text.toList = '[' :: ((toString i).toList ++ [']']) := by
  simp [text]

theorem ne_bracket_of_mem_toString {i : Nat} {c : Char} (h : c ∈ (toString i).toList) : c ≠ ']' := by
  have digits : c ∈ Nat.toDigits 10 i := by rwa [← Nat.toList_repr]
  have digit : c.isDigit = true := Nat.isDigit_of_mem_toDigits (by decide) (by decide) digits
  rintro rfl
  cases digit

theorem Segment.text_append_inj {s t : Segment} {x y : List Char} (hs : s.Ordinary) (ht : t.Ordinary)
    (stoppedX : Stopped IsMark x) (stoppedY : Stopped IsMark y)
    (same : s.text.toList ++ x = t.text.toList ++ y) : s = t ∧ x = y := by
  cases s with
  | field name =>
      cases t with
      | field other =>
          rw [toList_text_field, toList_text_field] at same
          obtain ⟨names, rest⟩ := append_inj_of_stopped hs ht stoppedX stoppedY (List.cons.inj same).2
          exact ⟨congrArg field (String.toList_inj.1 names), rest⟩
      | index j =>
          rw [toList_text_field, toList_text_index] at same
          exact absurd (List.cons.inj same).1 (by decide)
  | index i =>
      cases t with
      | field other =>
          rw [toList_text_index, toList_text_field] at same
          exact absurd (List.cons.inj same).1 (by decide)
      | index j =>
          rw [toList_text_index, toList_text_index] at same
          have closed : (toString i).toList ++ ']' :: x = (toString j).toList ++ ']' :: y := by
            simpa using same
          have bracket : ∀ rest, Stopped (· = ']') (']' :: rest) := by
            intro rest
            refine stopped_cons ?_ rest
            rfl
          obtain ⟨indices, rest⟩ := append_inj_of_stopped (fun _ => ne_bracket_of_mem_toString)
            (fun _ => ne_bracket_of_mem_toString) (bracket x) (bracket y) closed
          exact ⟨congrArg index (toString_injective (String.toList_inj.1 indices)), (List.cons.inj rest).2⟩

theorem Segment.exists_mark (s : Segment) : ∃ mark rest, IsMark mark ∧ s.text.toList = mark :: rest := by
  cases s with
  | field name => exact ⟨'.', _, .inl rfl, toList_text_field name⟩
  | index i => exact ⟨'[', _, .inr rfl, toList_text_index i⟩

theorem Segment.stopped_text (s : Segment) (rest : List Char) : Stopped IsMark (s.text.toList ++ rest) := by
  obtain ⟨mark, tail, isMark, text⟩ := s.exists_mark
  rw [text]
  exact stopped_cons isMark _

theorem Segment.text_append_ne_nil (s : Segment) (rest : List Char) : s.text.toList ++ rest ≠ [] := by
  obtain ⟨mark, tail, -, text⟩ := s.exists_mark
  rw [text]
  exact List.cons_ne_nil mark _

namespace Path

theorem toList_text (p : Path) : p.text.toList = p.segments.flatMap fun s => s.text.toList := by
  simp [text, List.flatMap_map]

theorem stopped_segments (segments : List Segment) :
    Stopped IsMark (segments.flatMap fun s => s.text.toList) := by
  cases segments with
  | nil => exact stopped_nil IsMark
  | cons s rest => exact s.stopped_text _

theorem segments_eq_of_text_eq {segments others : List Segment} (ordinary : ∀ s ∈ segments, s.Ordinary)
    (ordinary' : ∀ s ∈ others, s.Ordinary)
    (same : (segments.flatMap fun s => s.text.toList) = others.flatMap fun s => s.text.toList) :
    segments = others := by
  induction segments generalizing others with
  | nil =>
      cases others with
      | nil => rfl
      | cons t others => exact absurd same.symm (t.text_append_ne_nil _)
  | cons s segments ih =>
      cases others with
      | nil => exact absurd same (s.text_append_ne_nil _)
      | cons t others =>
          obtain ⟨head, headTail⟩ := List.forall_mem_cons.1 ordinary
          obtain ⟨head', headTail'⟩ := List.forall_mem_cons.1 ordinary'
          obtain ⟨rfl, rest⟩ := Segment.text_append_inj head head' (stopped_segments segments)
            (stopped_segments others) same
          rw [ih headTail headTail' rest]

/-- The text of a path tells it, when no field name holds a point or an opening bracket. -/
theorem text_tells_path {p q : Path} (ordinary : p.Ordinary) (ordinary' : q.Ordinary)
    (same : p.text = q.text) : p = q := by
  have texts := congrArg String.toList same
  rw [toList_text, toList_text] at texts
  obtain ⟨segments⟩ := p
  obtain ⟨others⟩ := q
  exact congrArg mk (segments_eq_of_text_eq ordinary ordinary' texts)

theorem text_tells_path_mixed :
    let p : Path := ⟨[.field "", .index 1, .index 23, .field "4]", .field "5"]⟩
    let q := ((((root.within (.field "5")).within (.field "4]")).within (.index 23)).within
      (.index 1)).within (.field "")
    p.Ordinary ∧ q.Ordinary ∧ p.text = ".[1][23].4].5" ∧ p.text = q.text ∧ p = q := by
  intro p q
  have ordinary : p.Ordinary := by simp [p, Path.Ordinary, Segment.Ordinary, IsMark]
  have ordinary' : q.Ordinary := by simp [q, Path.Ordinary, Segment.Ordinary, IsMark, root]
  have same : p.text = q.text := by decide
  exact ⟨ordinary, ordinary', by decide, same, text_tells_path ordinary ordinary' same⟩

/-- A name that holds a mark may read as two segments. -/
example :
    (⟨[.field "a.b"]⟩ : Path).text = (⟨[.field "a", .field "b"]⟩ : Path).text ∧
    (⟨[.field "a[0]"]⟩ : Path).text = (⟨[.field "a", .index 0]⟩ : Path).text := by decide

end Path

end JsonShape
