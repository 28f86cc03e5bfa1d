import JsonShape.Proofs.Value.Equality
import JsonShape.Value.Reader

/-!
Values that are read from text. Members are sorted when an object closes, so every value that is read lists
them in increasing order at every depth.
-/

namespace JsonShape.Value

theorem wellFormed_of_scalar {text rest : List Char} {v : Value} (h : scalar? text = some (v, rest)) :
    v.WellFormed := by
  obtain word | ⟨-, number⟩ := Option.or_eq_some_iff.1 h
  · obtain ⟨⟨spelling, w⟩, mem, read⟩ := List.exists_of_findSome?_eq_some word
    obtain ⟨_, -, e⟩ := Option.map_eq_some_iff.1 read
    cases e
    simp only [List.mem_cons, Prod.mk.injEq, List.not_mem_nil, or_false] at mem
    obtain ⟨-, rfl⟩ | ⟨-, rfl⟩ | ⟨-, rfl⟩ := mem <;> trivial
  · obtain ⟨_, -, e⟩ := Option.map_eq_some_iff.1 number
    cases e
    trivial

structure ReadWell (fuel : Nat) : Prop where
  value {text rest : List Char} {v : Value} (h : read? fuel text = some (v, rest)) : v.WellFormed
  items {text rest : List Char} {items : List Value} (h : readItems? fuel text = some (items, rest)) :
    ∀ v ∈ items, v.WellFormed
  moreItems {text rest : List Char} {items : List Value} (h : readMoreItems? fuel text = some (items, rest)) :
    ∀ v ∈ items, v.WellFormed
  members {text rest : List Char} {members : Entries Value}
    (h : readMembers? fuel text = some (members, rest)) : ∀ e ∈ members, e.2.WellFormed
  moreMembers {text rest : List Char} {members : Entries Value}
    (h : readMoreMembers? fuel text = some (members, rest)) : ∀ e ∈ members, e.2.WellFormed
  member {text rest : List Char} {e : String × Value} (h : readMember? fuel text = some (e, rest)) :
    e.2.WellFormed

theorem readWell_zero : ReadWell 0 where
  value h := by simp [read?] at h
  items h := by simp [readItems?] at h
  moreItems h := by simp [readMoreItems?] at h
  members h := by simp [readMembers?] at h
  moreMembers h := by simp [readMoreMembers?] at h
  member h := by simp [readMember?] at h

theorem readWell_succ {fuel : Nat} (below : ReadWell fuel) : ReadWell (fuel + 1) where
  value := by
    intro text rest v h
    rw [read?] at h
    split at h
    · cases h
    split at h
    · obtain ⟨_, -, e⟩ := Option.map_eq_some_iff.1 h
      cases e
      trivial
    split at h
    · obtain ⟨⟨items, _⟩, hi, e⟩ := Option.map_eq_some_iff.1 h
      cases e
      exact (wellFormedItems_iff items).2 (below.items hi)
    split at h
    · obtain ⟨⟨members, _⟩, hm, e⟩ := Option.map_eq_some_iff.1 h
      cases e
      refine ⟨Entries.increasing_sorted members, (wellFormedMembers_iff _).2 fun e he => ?_⟩
      exact below.members hm e (Entries.mem_of_mem_sorted he)
    · exact wellFormed_of_scalar h
  items := by
    intro text rest items h
    rw [readItems?] at h
    split at h
    · cases h
      exact fun v hv => absurd hv List.not_mem_nil
    · simp only [Option.bind_eq_bind, Option.bind_eq_some_iff] at h
      obtain ⟨_, first, _, more, e⟩ := h
      cases e
      exact List.forall_mem_cons.2 ⟨below.value first, below.moreItems more⟩
  moreItems := by
    intro text rest items h
    rw [readMoreItems?] at h
    split at h
    · cases h
      exact fun v hv => absurd hv List.not_mem_nil
    · simp only [Option.bind_eq_bind, Option.bind_eq_some_iff] at h
      obtain ⟨_, next, _, more, e⟩ := h
      cases e
      exact List.forall_mem_cons.2 ⟨below.value next, below.moreItems more⟩
    · cases h
  members := by
    intro text rest members h
    rw [readMembers?] at h
    split at h
    · cases h
      exact fun e he => absurd he List.not_mem_nil
    · simp only [Option.bind_eq_bind, Option.bind_eq_some_iff] at h
      obtain ⟨_, first, _, more, e⟩ := h
      cases e
      exact List.forall_mem_cons.2 ⟨below.member first, below.moreMembers more⟩
  moreMembers := by
    intro text rest members h
    rw [readMoreMembers?] at h
    split at h
    · cases h
      exact fun e he => absurd he List.not_mem_nil
    · simp only [Option.bind_eq_bind, Option.bind_eq_some_iff] at h
      obtain ⟨_, next, _, more, e⟩ := h
      cases e
      exact List.forall_mem_cons.2 ⟨below.member next, below.moreMembers more⟩
    · cases h
  member := by
    intro text rest e h
    simp only [readMember?, Option.bind_eq_bind, Option.bind_eq_some_iff] at h
    obtain ⟨_, -, _, -, _, -, _, read, e⟩ := h
    cases e
    exact below.value read

theorem readWell : (fuel : Nat) → ReadWell fuel
  | 0 => readWell_zero
  | fuel + 1 => readWell_succ (readWell fuel)

theorem wellFormed_of_text {text : String} {v : Value} (h : ofText? text = some v) : v.WellFormed := by
  unfold ofText? at h
  split at h
  next w rest read =>
    split at h
    · cases h
      exact (readWell _).value read
    · cases h
  · cases h

end JsonShape.Value
