/-!
Named entries: lists of names with what they stand for. Look-up takes the first match. `declare` adds
a later declaration to a sequence, `standing` says what a sequence of declarations leaves standing, and
`insert` keeps names in increasing order.
-/

namespace JsonShape

abbrev Entries (α : Type) := List (String × α)

namespace Entries

variable {α β : Type}

def names (l : Entries α) : List String := l.map Prod.fst

@[simp] theorem lookup_cons (key : String) (e : String × α) (l : Entries α) :
    List.lookup key (e :: l) = if key = e.1 then some e.2 else l.lookup key := by
  obtain ⟨name, a⟩ := e
  rw [List.lookup_cons]
  by_cases h : key = name
  · simp [h]
  · simp [h, beq_eq_false_iff_ne.2 h]

def replace (name : String) (a : α) : Entries α → Entries α
  | [] => []
  | (n, b) :: l => if n = name then (n, a) :: l else (n, b) :: replace name a l

@[simp] theorem names_replace (name : String) (a : α) (l : Entries α) :
    names (replace name a l) = names l := by
  induction l with
  | nil => rfl
  | cons e l ih =>
      by_cases h : e.1 = name
      · simp [replace, h, names]
      · simpa [replace, h, names] using ih

theorem lookup_replace (name key : String) (a : α) (l : Entries α) :
    (replace name a l).lookup key =
      if key = name ∧ name ∈ names l then some a else l.lookup key := by
  induction l with
  | nil => simp [replace, names]
  | cons e l ih =>
      by_cases h : e.1 = name
      · by_cases hk : key = name <;> simp [replace, h, hk, names]
      · have hn : ¬name = e.1 := fun he => h he.symm
        by_cases hk : key = e.1
        · simp [replace, h, hk]
        · have hm : name ∈ names (e :: l) ↔ name ∈ names l := by simp [names, hn]
          simp [replace, h, hk, ih, hm]

def declare (l : Entries α) (name : String) (a : α) : Entries α :=
  if name ∈ names l then replace name a l else l ++ [(name, a)]

@[simp] theorem lookup_declare (l : Entries α) (name key : String) (a : α) :
    (declare l name a).lookup key = if key = name then some a else l.lookup key := by
  unfold declare
  split
  next h => simp [lookup_replace, h]
  next h =>
    by_cases hk : key = name
    · subst hk
      have : l.lookup key = none := by
        simp only [names, List.mem_map, not_exists, not_and] at h
        simp only [List.lookup_eq_none_iff]
        intro p hp
        simpa using fun e => h p hp e.symm
      simp [List.lookup_append, this]
    · simp [List.lookup_append, hk]

theorem names_declare (l : Entries α) (name : String) (a : α) :
    names (declare l name a) = if name ∈ names l then names l else names l ++ [name] := by
  unfold declare
  split
  · exact names_replace name a l
  · simp [names]

theorem nodup_names_declare {l : Entries α} (h : (names l).Nodup) (name : String) (a : α) :
    (names (declare l name a)).Nodup := by
  rw [names_declare]
  split
  · exact h
  next hn =>
    rw [List.nodup_append]
    refine ⟨h, by simp, ?_⟩
    intro x hx y hy
    simp only [List.mem_singleton] at hy
    subst hy
    exact fun e => hn (e ▸ hx)

/-- What a sequence of declarations leaves standing: each name once, at the place of its first
declaration, with the value of its last. -/
def standing (declarations : Entries α) : Entries α :=
  declarations.foldl (fun l e => declare l e.1 e.2) []

theorem nodup_names_standing (declarations : Entries α) :
    (names (standing declarations)).Nodup := by
  suffices h : ∀ (d l : Entries α), (names l).Nodup →
      (names (d.foldl (fun l e => declare l e.1 e.2) l)).Nodup from h declarations [] (by simp [names])
  intro d
  induction d with
  | nil => exact fun l h => h
  | cons e d ih => exact fun l h => ih _ (nodup_names_declare h e.1 e.2)

theorem lookup_standing (declarations : Entries α) (key : String) :
    (standing declarations).lookup key = declarations.reverse.lookup key := by
  suffices h : ∀ d l : Entries α, (d.foldl (fun l e => declare l e.1 e.2) l).lookup key =
      (d.reverse.lookup key).or (l.lookup key) by
    simpa [standing] using h declarations []
  intro d
  induction d with
  | nil => simp
  | cons e d ih =>
      intro l
      simp only [List.foldl_cons, ih, lookup_declare, List.reverse_cons, List.lookup_append,
        lookup_cons, List.lookup_nil, Option.or_assoc]
      by_cases hk : key = e.1 <;> simp [hk]

theorem mem_of_mem_replace {name : String} {a : α} {l : Entries α} {e : String × α}
    (h : e ∈ replace name a l) : e = (name, a) ∨ e ∈ l := by
  induction l with
  | nil => simp [replace] at h
  | cons x l ih =>
      by_cases hx : x.1 = name
      · simp only [replace, hx, if_true, List.mem_cons] at h
        rcases h with h | h
        · exact .inl h
        · exact .inr (by simp [h])
      · simp only [replace, hx, if_false, List.mem_cons] at h
        rcases h with h | h
        · exact .inr (by simp [h])
        · rcases ih h with h | h
          · exact .inl h
          · exact .inr (by simp [h])

theorem mem_of_mem_declare {l : Entries α} {name : String} {a : α} {e : String × α}
    (h : e ∈ declare l name a) : e = (name, a) ∨ e ∈ l := by
  unfold declare at h
  split at h
  · exact mem_of_mem_replace h
  · simp only [List.mem_append, List.mem_singleton] at h
    exact h.symm

theorem mem_of_mem_standing {declarations : Entries α} {e : String × α}
    (h : e ∈ standing declarations) : e ∈ declarations := by
  suffices hs : ∀ d l : Entries α, e ∈ d.foldl (fun l e => declare l e.1 e.2) l → e ∈ d ∨ e ∈ l by
    simpa using hs declarations [] h
  intro d
  induction d with
  | nil => exact fun l h => .inr h
  | cons x d ih =>
      intro l h
      rcases ih _ h with h | h
      · exact .inl (by simp [h])
      · rcases mem_of_mem_declare h with h | h
        · exact .inl (by simp [h])
        · exact .inr h

def mapValues (f : α → β) (l : Entries α) : Entries β := l.map fun e => (e.1, f e.2)

@[simp] theorem names_mapValues (f : α → β) (l : Entries α) : names (mapValues f l) = names l := by
  simp [names, mapValues]

theorem replace_mapValues (f : α → β) (name : String) (a : α) (l : Entries α) :
    replace name (f a) (mapValues f l) = mapValues f (replace name a l) := by
  induction l with
  | nil => rfl
  | cons e l ih =>
      by_cases h : e.1 = name
      · simp [replace, mapValues, h]
      · simpa [replace, mapValues, h] using ih

@[simp] theorem standing_mapValues (f : α → β) (declarations : Entries α) :
    standing (mapValues f declarations) = mapValues f (standing declarations) := by
  suffices h : ∀ d l : Entries α,
      (mapValues f d).foldl (fun l e => declare l e.1 e.2) (mapValues f l) =
        mapValues f (d.foldl (fun l e => declare l e.1 e.2) l) from h declarations []
  intro d
  induction d with
  | nil => exact fun l => rfl
  | cons e d ih =>
      intro l
      have hd : declare (mapValues f l) e.1 (f e.2) = mapValues f (declare l e.1 e.2) := by
        unfold declare
        rw [names_mapValues]
        split
        · exact replace_mapValues f e.1 e.2 l
        · simp [mapValues]
      have := ih (declare l e.1 e.2)
      rw [← hd] at this
      exact this

def place (name : String) (a : α) : Entries α → Entries α
  | [] => [(name, a)]
  | e :: l => if name < e.1 then (name, a) :: e :: l else e :: place name a l

def insert (l : Entries α) (name : String) (a : α) : Entries α :=
  if name ∈ names l then replace name a l else place name a l

theorem lookup_place {name : String} (key : String) (a : α) {l : Entries α} (h : name ∉ names l) :
    (place name a l).lookup key = if key = name then some a else l.lookup key := by
  induction l with
  | nil => simp [place]
  | cons e l ih =>
      obtain ⟨hne, ht⟩ : ¬name = e.1 ∧ name ∉ names l := by simpa [names] using h
      unfold place
      split
      · simp
      · by_cases hk : key = e.1
        · simp [hk, Ne.symm hne]
        · simp [hk, ih ht]

@[simp] theorem lookup_insert (l : Entries α) (name key : String) (a : α) :
    (insert l name a).lookup key = if key = name then some a else l.lookup key := by
  unfold insert
  split
  next h => simp [lookup_replace, h]
  next h => exact lookup_place key a h

@[simp] theorem mem_names_place (name key : String) (a : α) (l : Entries α) :
    key ∈ names (place name a l) ↔ key = name ∨ key ∈ names l := by
  induction l with
  | nil => simp [place, names]
  | cons e l ih =>
      unfold place
      split
      · simp [names]
      · simp only [names, List.map_cons, List.mem_cons] at ih ⊢
        rw [ih]
        exact or_left_comm

@[simp] theorem mem_names_insert (l : Entries α) (name key : String) (a : α) :
    key ∈ names (insert l name a) ↔ key = name ∨ key ∈ names l := by
  unfold insert
  split
  next h =>
    rw [names_replace]
    exact ⟨.inr, fun hk => hk.elim (fun e => e ▸ h) id⟩
  · exact mem_names_place name key a l

/-- Names in strictly increasing order of their code points, so that none repeats. -/
def Increasing (l : Entries α) : Prop := (names l).Pairwise (· < ·)

theorem increasing_place {name : String} (a : α) {l : Entries α} (h : Increasing l)
    (hn : name ∉ names l) : Increasing (place name a l) := by
  induction l with
  | nil => simp [Increasing, place, names]
  | cons e l ih =>
      obtain ⟨hlt, hl⟩ := List.pairwise_cons.1 h
      unfold place
      split
      next hk =>
        refine List.pairwise_cons.2 ⟨?_, h⟩
        intro x hx
        rcases List.mem_cons.1 hx with rfl | hx
        · exact hk
        · exact String.lt_trans hk (hlt x hx)
      next hk =>
        have hne : name ≠ e.1 := fun he => hn (by simp [names, he])
        have ht : name ∉ names l := fun hm => hn (List.mem_cons_of_mem _ hm)
        refine List.pairwise_cons.2 ⟨?_, ih hl ht⟩
        intro x hx
        rcases (mem_names_place name x a l).1 hx with rfl | hx
        · exact Std.lt_of_le_of_ne (Std.not_lt.1 hk) (Ne.symm hne)
        · exact hlt x hx

theorem increasing_insert {l : Entries α} (h : Increasing l) (name : String) (a : α) :
    Increasing (insert l name a) := by
  unfold insert
  split
  · unfold Increasing
    rw [names_replace]
    exact h
  next hn => exact increasing_place a h hn

/-- Entries in increasing order of their names, the last of equal names kept. -/
def sorted (l : Entries α) : Entries α :=
  l.foldl (fun acc e => insert acc e.1 e.2) []

theorem increasing_sorted (l : Entries α) : Increasing (sorted l) := by
  suffices h : ∀ (d acc : Entries α), Increasing acc →
      Increasing (d.foldl (fun acc e => insert acc e.1 e.2) acc) from
    h l [] (by simp [Increasing, names])
  intro d
  induction d with
  | nil => exact fun acc h => h
  | cons e d ih => exact fun acc h => ih _ (increasing_insert h e.1 e.2)

theorem lookup_sorted (l : Entries α) (key : String) :
    (sorted l).lookup key = l.reverse.lookup key := by
  suffices h : ∀ d acc : Entries α, (d.foldl (fun acc e => insert acc e.1 e.2) acc).lookup key =
      (d.reverse.lookup key).or (acc.lookup key) by
    simpa [sorted] using h l []
  intro d
  induction d with
  | nil => simp
  | cons e d ih =>
      intro acc
      simp only [List.foldl_cons, ih, lookup_insert, List.reverse_cons, List.lookup_append,
        lookup_cons, List.lookup_nil, Option.or_assoc]
      by_cases hk : key = e.1 <;> simp [hk]

end Entries

end JsonShape
