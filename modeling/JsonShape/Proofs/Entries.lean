import JsonShape.Entries

/-!
Look-ups in entries: the names that have one, and what writing an entry that is already there does. What
stands in entries after writing was there before or was written.
-/

namespace JsonShape.Entries

variable {α β : Type}

theorem mem_of_lookup {l : Entries α} {key : String} {a : α} (h : l.lookup key = some a) :
    (key, a) ∈ l := by
  obtain ⟨before, after, rfl, -⟩ := List.lookup_eq_some_iff.1 h
  simp

theorem mem_names_iff (l : Entries α) (key : String) :
    key ∈ names l ↔ ∃ a, l.lookup key = some a := by
  induction l with
  | nil => simp [names]
  | cons e l ih =>
      rw [lookup_cons]
      by_cases h : key = e.1
      · simp [names, h]
      · have hl : key ∈ names (e :: l) ↔ key ∈ names l := by simp [names, h]
        rw [hl, ih, if_neg h]

theorem lookup_of_mem {l : Entries α} (distinct : (names l).Nodup) {key : String} {a : α}
    (h : (key, a) ∈ l) : l.lookup key = some a := by
  induction l with
  | nil => simp at h
  | cons e l ih =>
      obtain ⟨hn, hd⟩ := List.nodup_cons.1 distinct
      rw [lookup_cons]
      cases h with
      | head => simp
      | tail _ h =>
          have hne : ¬key = e.1 := by
            intro he
            exact hn (he ▸ List.mem_map_of_mem h)
          rw [if_neg hne, ih hd h]

theorem lookup_eq_none_iff (l : Entries α) (key : String) :
    l.lookup key = none ↔ key ∉ names l := by
  rw [mem_names_iff]
  cases l.lookup key <;> simp

@[simp] theorem lookup_mapValues (f : α → β) (l : Entries α) (key : String) :
    (mapValues f l).lookup key = (l.lookup key).map f := by
  induction l with
  | nil => rfl
  | cons e l ih =>
      have hm : mapValues f (e :: l) = (e.1, f e.2) :: mapValues f l := rfl
      rw [hm, lookup_cons, lookup_cons, ih]
      by_cases h : key = e.1 <;> simp [h]

theorem mem_of_lookup_standing {declarations : Entries α} {key : String} {a : α}
    (h : (standing declarations).lookup key = some a) : (key, a) ∈ declarations :=
  mem_of_mem_standing (mem_of_lookup h)

theorem replace_of_lookup {l : Entries α} {name : String} {a : α} (h : l.lookup name = some a) :
    replace name a l = l := by
  induction l with
  | nil => rfl
  | cons e l ih =>
      rw [lookup_cons] at h
      by_cases hn : name = e.1
      · have he : e.2 = a := by simpa [hn] using h
        subst hn
        subst he
        simp [replace]
      · have hl : l.lookup name = some a := by simpa [hn] using h
        simp [replace, Ne.symm hn, ih hl]

theorem insert_of_lookup {l : Entries α} {name : String} {a : α} (h : l.lookup name = some a) :
    insert l name a = l := by
  have hn : name ∈ names l := (mem_names_iff l name).2 ⟨a, h⟩
  rw [insert, if_pos hn, replace_of_lookup h]

theorem mem_of_mem_place {name : String} {a : α} {l : Entries α} {e : String × α}
    (h : e ∈ place name a l) : e = (name, a) ∨ e ∈ l := by
  induction l with
  | nil => exact .inl (List.mem_singleton.1 h)
  | cons d l ih =>
      unfold place at h
      split at h
      · exact List.mem_cons.1 h
      · rcases List.mem_cons.1 h with rfl | h
        · exact .inr (List.mem_cons_self ..)
        · exact (ih h).imp_right (List.mem_cons_of_mem d)

theorem mem_of_mem_insert {name : String} {a : α} {l : Entries α} {e : String × α}
    (h : e ∈ insert l name a) : e = (name, a) ∨ e ∈ l := by
  unfold insert at h
  split at h
  · exact mem_of_mem_replace h
  · exact mem_of_mem_place h

theorem mem_of_mem_sorted {l : Entries α} {e : String × α} (h : e ∈ sorted l) : e ∈ l := by
  suffices hs : ∀ d acc : Entries α, e ∈ d.foldl (fun acc e => insert acc e.1 e.2) acc →
      e ∈ d ∨ e ∈ acc by
    simpa using hs l [] h
  intro d
  induction d with
  | nil => exact fun acc h => .inr h
  | cons x d ih =>
      intro acc h
      rcases ih _ h with h | h
      · exact .inl (List.mem_cons_of_mem x h)
      · rcases mem_of_mem_insert h with h | h
        · exact .inl (h ▸ List.mem_cons_self ..)
        · exact .inr h

theorem lookup_sorted_of_mem {l : Entries α} (distinct : (names l).Nodup) {key : String} {a : α}
    (h : (key, a) ∈ l) : (sorted l).lookup key = some a := by
  rw [lookup_sorted]
  refine lookup_of_mem ?_ (List.mem_reverse.2 h)
  rw [names, List.map_reverse]
  exact List.pairwise_reverse.2 (distinct.imp Ne.symm)

@[simp] theorem mem_names_sorted (l : Entries α) (key : String) :
    key ∈ names (sorted l) ↔ key ∈ names l := by
  rw [mem_names_iff, lookup_sorted, ← mem_names_iff]
  simp [names]

theorem place_mapValues (f : α → β) (name : String) (a : α) (l : Entries α) :
    place name (f a) (mapValues f l) = mapValues f (place name a l) := by
  induction l with
  | nil => rfl
  | cons e l ih =>
      by_cases h : name < e.1
      · simp [place, mapValues, h]
      · simpa [place, mapValues, h] using ih

theorem insert_mapValues (f : α → β) (l : Entries α) (name : String) (a : α) :
    insert (mapValues f l) name (f a) = mapValues f (insert l name a) := by
  unfold insert
  rw [names_mapValues]
  split
  · exact replace_mapValues f name a l
  · exact place_mapValues f name a l

theorem sorted_mapValues (f : α → β) (l : Entries α) :
    sorted (mapValues f l) = mapValues f (sorted l) := by
  suffices h : ∀ d acc : Entries α,
      (mapValues f d).foldl (fun acc e => insert acc e.1 e.2) (mapValues f acc) =
        mapValues f (d.foldl (fun acc e => insert acc e.1 e.2) acc) from h l []
  intro d
  induction d with
  | nil => exact fun acc => rfl
  | cons e d ih =>
      intro acc
      have step := ih (insert acc e.1 e.2)
      rw [← insert_mapValues] at step
      exact step

end JsonShape.Entries
