/-
Reckoner.Proofs.IdMap — maps of ids as lists of entries.

`Reckoner.IdMap` says what look-up finds after each operation. Here is what the
list of entries becomes, for the places where order or number counts: a value
that takes the place of another leaves the list as it was around it, and an id
above all others goes to the end.

  1. Values and the least entry
  2. How many entries there are
  3. Entries after an insertion
  4. Inserting many entries
  5. Erasing many ids
-/
import Reckoner.IdMap

namespace Reckoner.IdMap

variable {α : Type}

/-! ## 1. Values and the least entry -/

theorem mem_values_iff (m : IdMap α) (a : α) : a ∈ m.values ↔ ∃ id, m.get? id = some a := by
  constructor
  · intro h
    obtain ⟨e, he, rfl⟩ := List.mem_map.1 h
    exact ⟨e.1, (mem_entries_iff m e.1 e.2).1 he⟩
  · rintro ⟨id, h⟩
    exact List.mem_map.2 ⟨(id, a), (mem_entries_iff m id a).2 h, rfl⟩

theorem pairwise_keys (m : IdMap α) : m.keys.Pairwise (· < ·) := List.pairwise_map.2 m.ascending

theorem nodup_keys (m : IdMap α) : m.keys.Nodup := m.pairwise_keys.imp Int.ne_of_lt

theorem contains_eq_true_iff (m : IdMap α) (id : Int) :
    m.contains id = true ↔ ∃ a, m.get? id = some a := by
  rw [contains, Option.isSome_iff_exists]

theorem contains_insert (m : IdMap α) (id j : Int) (a : α) :
    (m.insert id a).contains j = (j == id || m.contains j) := by
  rw [contains, get?_insert]
  by_cases h : j = id <;> simp [h, contains]

theorem contains_erase (m : IdMap α) (id j : Int) :
    (m.erase id).contains j = (j != id && m.contains j) := by
  rw [contains, get?_erase]
  by_cases h : j = id <;> simp [h, contains]

/-- The first entry is the one of the least id. -/
theorem least?_eq_some_iff (m : IdMap α) (id : Int) (a : α) :
    m.least? = some (id, a) ↔ m.get? id = some a ∧ ∀ j b, m.get? j = some b → id ≤ j := by
  constructor
  · intro h
    obtain ⟨es, hes⟩ := List.head?_eq_some_iff.1 h
    refine ⟨(mem_entries_iff m id a).1 (by rw [hes]; exact List.mem_cons_self), ?_⟩
    intro j b hj
    have hasc := m.ascending
    rw [hes, Ascending, List.pairwise_cons] at hasc
    have hmem := (mem_entries_iff m j b).2 hj
    rw [hes] at hmem
    rcases List.mem_cons.1 hmem with h' | h'
    · cases h'
      exact Int.le_refl _
    · exact Int.le_of_lt (hasc.1 _ h')
  · rintro ⟨hget, hle⟩
    have hmem := (mem_entries_iff m id a).2 hget
    have hasc := m.ascending
    rw [least?]
    cases hes : m.entries with
    | nil =>
      rw [hes] at hmem
      cases hmem
    | cons e es =>
      rw [hes] at hmem
      rw [hes, Ascending, List.pairwise_cons] at hasc
      have he := hle e.1 e.2 ((mem_entries_iff m e.1 e.2).1 (by rw [hes]; exact List.mem_cons_self))
      rcases List.mem_cons.1 hmem with h' | h'
      · rw [List.head?_cons, h']
      · have := hasc.1 _ h'
        simp only at this
        omega

theorem find?_eq_some_of_unique {α : Type} {p : α → Bool} {l : List α} {a : α} (ha : a ∈ l)
    (hp : p a = true) (h : ∀ x ∈ l, p x = true → x = a) : l.find? p = some a := by
  obtain ⟨x, hx⟩ := Option.isSome_iff_exists.1 (List.find?_isSome.2 ⟨a, ha, hp⟩)
  rw [hx, h x (List.mem_of_find?_eq_some hx) (List.find?_some hx)]

/-- A value that carries its id is found by it among the values, too. -/
theorem find?_values {m : IdMap α} {key : α → Int} (hkey : ∀ id a, m.get? id = some a → key a = id)
    (id : Int) : m.values.find? (fun a => key a == id) = m.get? id := by
  have hvalues : ∀ a ∈ m.values, key a = id → m.get? id = some a := by
    intro a ha hid
    obtain ⟨j, hj⟩ := (mem_values_iff m a).1 ha
    rwa [← hkey j a hj, hid] at hj
  cases hget : m.get? id with
  | none =>
    refine List.find?_eq_none.2 fun a ha hid => ?_
    rw [hvalues a ha (beq_iff_eq.1 hid)] at hget
    cases hget
  | some a =>
    refine find?_eq_some_of_unique ((mem_values_iff m a).2 ⟨id, hget⟩)
      (beq_iff_eq.2 (hkey id a hget)) fun b hb hid => ?_
    rw [hvalues b hb (beq_iff_eq.1 hid)] at hget
    exact Option.some.inj hget

/-! ## 2. How many entries there are -/

theorem contains_eraseAll (m : IdMap α) (ids : List Int) (j : Int) :
    (m.eraseAll ids).contains j = (!ids.contains j && m.contains j) := by
  rw [contains, get?_eraseAll]
  by_cases h : j ∈ ids <;> simp [h, contains]

/-- The size is the number of any ids that are just those of the map. -/
theorem size_eq_length {m : IdMap α} {ids : List Int} (hids : ids.Nodup)
    (h : ∀ id, m.contains id = true ↔ id ∈ ids) : m.size = ids.length := by
  have hperm : m.keys.Perm ids := by
    refine (List.perm_ext_iff_of_nodup m.nodup_keys hids).2 fun id => ?_
    rw [← contains_iff, h]
  rw [← hperm.length_eq, keys, List.length_map, size]

/-- Maps of the same ids have the same size. -/
theorem size_eq_of_contains {m n : IdMap α} (h : ∀ id, m.contains id = n.contains id) :
    m.size = n.size := by
  refine (size_eq_length n.nodup_keys fun id => ?_).trans (List.length_map _)
  rw [h, contains_iff]

theorem size_insert {m : IdMap α} {id : Int} (h : m.contains id = false) (a : α) :
    (m.insert id a).size = m.size + 1 := by
  have hnotMem : id ∉ m.keys := by
    rw [← contains_iff, h]
    exact Bool.false_ne_true
  have hkeys : ∀ j, (m.insert id a).contains j = true ↔ j ∈ id :: m.keys := by
    intro j
    rw [contains_insert, Bool.or_eq_true, beq_iff_eq, contains_iff, List.mem_cons]
  rw [size_eq_length (List.nodup_cons.2 ⟨hnotMem, m.nodup_keys⟩) hkeys, List.length_cons, keys,
    List.length_map, size]

/-- One of the ids of a map is gone. -/
theorem size_eq_succ {m n : IdMap α} {id : Int} (hid : m.contains id = true)
    (h : ∀ j, n.contains j = (j != id && m.contains j)) : m.size = n.size + 1 := by
  obtain ⟨a, ha⟩ := (m.contains_eq_true_iff id).1 hid
  have hgone : n.contains id = false := by rw [h, bne_self_eq_false, Bool.false_and]
  rw [← size_insert hgone a]
  refine size_eq_of_contains fun j => ?_
  rw [contains_insert, h]
  cases hj : j == id with
  | true => rw [beq_iff_eq.1 hj, hid, Bool.true_or]
  | false => simp [bne, hj]

/-! ## 3. Entries after an insertion -/

theorem insertEntry_append {id : Int} {a b : α} {pre post : List (Int × α)}
    (h : Ascending (pre ++ (id, a) :: post)) :
    insertEntry id b (pre ++ (id, a) :: post) = pre ++ (id, b) :: post := by
  induction pre with
  | nil => simp [insertEntry]
  | cons e pre ih =>
    have hasc := List.pairwise_cons.1 h
    have hlt : e.1 < id := hasc.1 (id, a) (by simp)
    rw [List.cons_append, insertEntry, if_neg (by omega), if_neg (by omega), ih hasc.2]
    rfl

/-- A new value of an id takes the place of the old one. -/
theorem exists_entries_insert {m : IdMap α} {id : Int} {a : α} (h : m.get? id = some a) :
    ∃ pre post, m.entries = pre ++ (id, a) :: post ∧
      ∀ b, (m.insert id b).entries = pre ++ (id, b) :: post := by
  obtain ⟨pre, post, hsplit⟩ := List.append_of_mem ((mem_entries_iff m id a).2 h)
  have hasc := m.ascending
  rw [hsplit] at hasc
  refine ⟨pre, post, hsplit, fun b => ?_⟩
  show insertEntry id b m.entries = _
  rw [hsplit]
  exact insertEntry_append hasc

/-- A count of values changes by the old and the new value only. -/
theorem countP_values_insert {m : IdMap α} {id : Int} {a : α} (h : m.get? id = some a)
    (p : α → Bool) (b : α) :
    (m.insert id b).values.countP p + (p a).toNat = m.values.countP p + (p b).toNat := by
  obtain ⟨pre, post, hold, hnew⟩ := exists_entries_insert h
  simp only [values, hold, hnew b, List.map_append, List.map_cons, List.countP_append,
    List.countP_cons]
  cases p a <;> cases p b <;> simp <;> omega

/-- An id above all others comes last. -/
theorem insertEntry_of_lt {id : Int} {a : α} {es : List (Int × α)} (h : ∀ e ∈ es, e.1 < id) :
    insertEntry id a es = es ++ [(id, a)] := by
  induction es with
  | nil => rfl
  | cons e es ih =>
    have he := h e List.mem_cons_self
    rw [insertEntry, if_neg (by omega), if_neg (by omega),
      ih fun e' he' => h e' (List.mem_cons_of_mem _ he')]
    rfl

/-! ## 4. Inserting many entries -/

/-- The map with some more entries, the later ones in the place of the earlier. -/
def insertAll (m : IdMap α) (es : List (Int × α)) : IdMap α :=
  es.foldl (fun m e => m.insert e.1 e.2) m

@[simp] theorem insertAll_nil (m : IdMap α) : m.insertAll [] = m := rfl

@[simp] theorem insertAll_cons (m : IdMap α) (e : Int × α) (es : List (Int × α)) :
    m.insertAll (e :: es) = (m.insert e.1 e.2).insertAll es := rfl

theorem insertAll_append (m : IdMap α) (es fs : List (Int × α)) :
    m.insertAll (es ++ fs) = (m.insertAll es).insertAll fs := List.foldl_append

/-- Entries under different ids, none of which the map has, are found beside its own. -/
theorem get?_insertAll {es : List (Int × α)} (hes : (es.map (·.1)).Nodup) {m : IdMap α}
    (hm : ∀ e ∈ es, m.get? e.1 = none) (id : Int) (a : α) :
    (m.insertAll es).get? id = some a ↔ (id, a) ∈ es ∨ m.get? id = some a := by
  induction es generalizing m with
  | nil => simp
  | cons e es ih =>
    have hnd := List.nodup_cons.1 hes
    have hm' : ∀ f ∈ es, (m.insert e.1 e.2).get? f.1 = none := by
      intro f hf
      have hne : f.1 ≠ e.1 := fun heq => hnd.1 (List.mem_map.2 ⟨f, hf, heq⟩)
      rw [get?_insert, if_neg hne]
      exact hm f (List.mem_cons_of_mem _ hf)
    rw [insertAll_cons, ih hnd.2 hm', get?_insert]
    have hfresh := hm e List.mem_cons_self
    by_cases hid : id = e.1
    · subst hid
      rw [if_pos rfl, hfresh, List.mem_cons]
      constructor
      · rintro (h | h)
        · exact .inl (.inr h)
        · cases h
          exact .inl (.inl rfl)
      · rintro ((h | h) | h)
        · exact .inr (by rw [← h])
        · exact .inl h
        · cases h
    · rw [if_neg hid, List.mem_cons]
      constructor
      · rintro (h | h)
        · exact .inl (.inr h)
        · exact .inr h
      · rintro ((h | h) | h)
        · exact absurd (congrArg Prod.fst h) hid
        · exact .inl h
        · exact .inr h

/-- Ascending entries above all of the map's own come behind them. -/
theorem entries_insertAll {es : List (Int × α)} (hes : Ascending es) {m : IdMap α}
    (hm : ∀ e ∈ es, ∀ f ∈ m.entries, f.1 < e.1) :
    (m.insertAll es).entries = m.entries ++ es := by
  induction es generalizing m with
  | nil => simp
  | cons e es ih =>
    have hasc := List.pairwise_cons.1 hes
    have hins : (m.insert e.1 e.2).entries = m.entries ++ [e] :=
      insertEntry_of_lt (hm e List.mem_cons_self)
    have hm' : ∀ e' ∈ es, ∀ f ∈ (m.insert e.1 e.2).entries, f.1 < e'.1 := by
      intro e' he' f hf
      rw [hins] at hf
      rcases List.mem_append.1 hf with hf | hf
      · exact hm e' (List.mem_cons_of_mem _ he') f hf
      · rw [List.mem_singleton.1 hf]
        exact hasc.1 e' he'
    rw [insertAll_cons, ih hasc.2 hm', hins, List.append_assoc]
    rfl

/-! ## 5. Erasing many ids -/

theorem eraseAll_nil (m : IdMap α) : m.eraseAll [] = m := by
  refine ext_get? fun j => ?_
  rw [get?_eraseAll, if_neg List.not_mem_nil]

theorem eraseAll_cons (m : IdMap α) (id : Int) (ids : List Int) :
    m.eraseAll (id :: ids) = (m.erase id).eraseAll ids := by
  refine ext_get? fun j => ?_
  rw [get?_eraseAll, get?_eraseAll, get?_erase]
  by_cases hid : j = id <;> by_cases hids : j ∈ ids <;> simp [hid, hids]

theorem eraseAll_comm (m : IdMap α) (ids ids' : List Int) :
    (m.eraseAll ids).eraseAll ids' = (m.eraseAll ids').eraseAll ids := by
  refine ext_get? fun j => ?_
  simp only [get?_eraseAll]
  by_cases h : j ∈ ids <;> by_cases h' : j ∈ ids' <;> simp [h, h']

theorem eraseAll_congr (m : IdMap α) {ids ids' : List Int} (h : ∀ id, id ∈ ids ↔ id ∈ ids') :
    m.eraseAll ids = m.eraseAll ids' := by
  refine ext_get? fun j => ?_
  simp only [get?_eraseAll, h j]

end Reckoner.IdMap
