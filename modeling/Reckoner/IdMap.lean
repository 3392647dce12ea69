/-
Reckoner.IdMap — finite maps from ids.

A map is the list of its entries in ascending order of their ids. The order is
part of the type, so two maps that answer every look-up alike are equal, and
the least id is the first.

  1. Lists of entries
  2. The type and its operations
  3. Look-up after each operation
  4. Equality
-/
namespace Reckoner

/-! ## 1. Lists of entries -/

namespace IdMap

/-- The entries stand in ascending order of their ids. -/
def Ascending {α : Type} (es : List (Int × α)) : Prop := es.Pairwise fun a b => a.1 < b.1

/-- The entries with one more, in the place of any entry of the same id. -/
def insertEntry {α : Type} (id : Int) (value : α) : List (Int × α) → List (Int × α)
  | [] => [(id, value)]
  | e :: es =>
    if id < e.1 then (id, value) :: e :: es
    else if id = e.1 then (id, value) :: es
    else e :: insertEntry id value es

theorem mem_insertEntry {α : Type} {id : Int} {value : α} {e : Int × α} :
    ∀ {es : List (Int × α)}, e ∈ insertEntry id value es → e = (id, value) ∨ e ∈ es
  | [], h => by simpa [insertEntry] using h
  | x :: xs, h => by
    rw [insertEntry] at h
    split at h
    · rcases List.mem_cons.1 h with h | h
      · exact .inl h
      · exact .inr h
    · split at h
      · rcases List.mem_cons.1 h with h | h
        · exact .inl h
        · exact .inr (List.mem_cons_of_mem _ h)
      · rcases List.mem_cons.1 h with h | h
        · exact .inr (h ▸ List.mem_cons_self)
        · rcases mem_insertEntry h with h | h
          · exact .inl h
          · exact .inr (List.mem_cons_of_mem _ h)

theorem Ascending.insertEntry {α : Type} (id : Int) (value : α) :
    ∀ {es : List (Int × α)}, Ascending es → Ascending (insertEntry id value es)
  | [], _ => List.pairwise_singleton _ _
  | x :: xs, h => by
    have hx := List.pairwise_cons.1 h
    rw [IdMap.insertEntry]
    split
    · next hlt =>
      refine List.pairwise_cons.2 ⟨fun e he => ?_, h⟩
      rcases List.mem_cons.1 he with he | he
      · exact he ▸ hlt
      · exact Int.lt_trans hlt (hx.1 e he)
    · split
      · next heq =>
        refine List.pairwise_cons.2 ⟨fun e he => ?_, hx.2⟩
        show id < e.1
        exact heq ▸ hx.1 e he
      · next h1 h2 =>
        refine List.pairwise_cons.2 ⟨fun e he => ?_, Ascending.insertEntry id value hx.2⟩
        rcases mem_insertEntry he with he | he
        · subst he
          show x.1 < id
          omega
        · exact hx.1 e he

theorem lookup_insertEntry {α : Type} (id j : Int) (value : α) :
    ∀ (es : List (Int × α)), Ascending es →
      (insertEntry id value es).lookup j = if j = id then some value else es.lookup j
  | [], _ => by
    by_cases h : j = id
    · simp [insertEntry, h]
    · have hb : (j == id) = false := by simp [h]
      simp [insertEntry, List.lookup_cons, h, hb]
  | x :: xs, h => by
    have hx := List.pairwise_cons.1 h
    rw [insertEntry]
    split
    · by_cases hj : j = id
      · simp [hj]
      · have hb : (j == id) = false := by simp [hj]
        simp [List.lookup_cons, hj, hb]
    · split
      · next heq =>
        by_cases hj : j = id
        · simp [hj]
        · have hb : (j == id) = false := by simp [hj]
          have hb' : (j == x.1) = false := by simp [← heq, hj]
          obtain ⟨a, b⟩ := x
          simp only at hb'
          simp [List.lookup_cons, hj, hb, hb']
      · next h1 h2 =>
        have ih := lookup_insertEntry id j value xs hx.2
        obtain ⟨a, b⟩ := x
        by_cases hj : j = a
        · subst hj
          have : j ≠ id := fun hc => h2 (by simp [hc])
          simp [this]
        · have hb : (j == a) = false := by simp [hj]
          simp [List.lookup_cons, hb, ih]

end IdMap

/-! ## 2. The type and its operations -/

/-- A finite map from ids, as its entries in ascending order. -/
structure IdMap (α : Type) where
  entries : List (Int × α)
  ascending : IdMap.Ascending entries

namespace IdMap

variable {α : Type}

/-- The map without entries. -/
def empty : IdMap α := ⟨[], List.Pairwise.nil⟩

instance : Inhabited (IdMap α) := ⟨empty⟩

instance [DecidableEq α] : DecidableEq (IdMap α) := fun a b =>
  if h : a.entries = b.entries then
    .isTrue (by cases a; cases b; simp only at h; subst h; rfl)
  else .isFalse fun hc => h (hc ▸ rfl)

/-- The value of an id. -/
def get? (m : IdMap α) (id : Int) : Option α := m.entries.lookup id

/-- The id has a value. -/
def contains (m : IdMap α) (id : Int) : Bool := (m.get? id).isSome

/-- The map with a value for the id, in the place of any it had. -/
def insert (m : IdMap α) (id : Int) (value : α) : IdMap α :=
  ⟨insertEntry id value m.entries, m.ascending.insertEntry id value⟩

/-- The map without a value for the id. -/
def erase (m : IdMap α) (id : Int) : IdMap α :=
  ⟨m.entries.filter fun e => e.1 != id, m.ascending.filter _⟩

/-- The map without values for the ids. -/
def eraseAll (m : IdMap α) (ids : List Int) : IdMap α :=
  ⟨m.entries.filter fun e => !ids.contains e.1, m.ascending.filter _⟩

theorem Ascending.mapValue {f : α → α} {es : List (Int × α)} (h : Ascending es) :
    Ascending (es.map fun e => (e.1, f e.2)) :=
  List.pairwise_map.2 h

/-- The map with every value changed. -/
def map (m : IdMap α) (f : α → α) : IdMap α :=
  ⟨m.entries.map fun e => (e.1, f e.2), m.ascending.mapValue⟩

/-- The entries whose value has a property. -/
def filter (m : IdMap α) (p : α → Bool) : IdMap α :=
  ⟨m.entries.filter fun e => p e.2, m.ascending.filter _⟩

/-- The ids that have a value, ascending. -/
def keys (m : IdMap α) : List Int := m.entries.map (·.1)

/-- The values, in ascending order of their ids. -/
def values (m : IdMap α) : List α := m.entries.map (·.2)

/-- The number of entries. -/
def size (m : IdMap α) : Nat := m.entries.length

/-- The entry of the least id. -/
def least? (m : IdMap α) : Option (Int × α) := m.entries.head?

/-! ## 3. Look-up after each operation -/

@[simp] theorem get?_empty (id : Int) : (empty : IdMap α).get? id = none := rfl

theorem get?_insert (m : IdMap α) (id j : Int) (value : α) :
    (m.insert id value).get? j = if j = id then some value else m.get? j :=
  lookup_insertEntry id j value m.entries m.ascending

@[simp] theorem get?_insert_self (m : IdMap α) (id : Int) (value : α) :
    (m.insert id value).get? id = some value := by
  simp [get?_insert]

theorem lookup_filter_key (p : Int → Bool) (j : Int) : ∀ es : List (Int × α),
    (es.filter fun e => p e.1).lookup j = if p j then es.lookup j else none
  | [] => by simp
  | (a, b) :: es => by
    have ih := lookup_filter_key p j es
    by_cases hj : j = a
    · subst hj
      cases hp : p j
      · simp [hp] at ih ⊢
        exact ih
      · simp [hp]
    · have hb : (j == a) = false := by simp [hj]
      cases hp : p a <;> simp [List.lookup_cons, hp, hb, ih]

theorem get?_erase (m : IdMap α) (id j : Int) :
    (m.erase id).get? j = if j = id then none else m.get? j := by
  have h := lookup_filter_key (fun k => k != id) j m.entries
  by_cases hj : j = id
  · simpa [erase, get?, hj] using h
  · simpa [erase, get?, hj] using h

theorem get?_eraseAll (m : IdMap α) (ids : List Int) (j : Int) :
    (m.eraseAll ids).get? j = if j ∈ ids then none else m.get? j := by
  have h := lookup_filter_key (fun k => !ids.contains k) j m.entries
  by_cases hj : j ∈ ids
  · simpa [eraseAll, get?, hj] using h
  · simpa [eraseAll, get?, hj] using h

theorem lookup_of_mem {k : Int} {v : α} : ∀ {es : List (Int × α)}, Ascending es →
    (k, v) ∈ es → es.lookup k = some v
  | [], _, h => by simp at h
  | (a, b) :: es, hs, h => by
    have hx := List.pairwise_cons.1 hs
    rcases List.mem_cons.1 h with h | h
    · cases h
      simp
    · have hlt : a < k := hx.1 _ h
      have hb : (k == a) = false := by simp; omega
      rw [List.lookup_cons, hb]
      exact lookup_of_mem hx.2 h

theorem mem_of_lookup {k : Int} {v : α} : ∀ {es : List (Int × α)},
    es.lookup k = some v → (k, v) ∈ es
  | [], h => by simp at h
  | (a, b) :: es, h => by
    by_cases hk : k = a
    · subst hk
      simp only [List.lookup_cons, beq_self_eq_true, Option.some.injEq] at h
      subst h
      exact List.mem_cons_self
    · have hb : (k == a) = false := by simp [hk]
      rw [List.lookup_cons, hb] at h
      exact List.mem_cons_of_mem _ (mem_of_lookup h)

/-- The entries are exactly the pairs that look-up finds. -/
theorem mem_entries_iff (m : IdMap α) (k : Int) (v : α) :
    (k, v) ∈ m.entries ↔ m.get? k = some v :=
  ⟨lookup_of_mem m.ascending, mem_of_lookup⟩

theorem lookup_map (f : α → α) (j : Int) : ∀ es : List (Int × α),
    (es.map fun e => (e.1, f e.2)).lookup j = (es.lookup j).map f
  | [] => rfl
  | (a, b) :: es => by
    by_cases hj : j = a
    · simp [hj]
    · have hb : (j == a) = false := by simp [hj]
      simp [List.lookup_cons, hb, lookup_map f j es]

theorem get?_map (m : IdMap α) (f : α → α) (j : Int) : (m.map f).get? j = (m.get? j).map f :=
  lookup_map f j m.entries

theorem mem_keys_iff (m : IdMap α) (k : Int) : k ∈ m.keys ↔ ∃ v, m.get? k = some v := by
  constructor
  · intro h
    obtain ⟨e, he, rfl⟩ := List.mem_map.1 h
    exact ⟨e.2, (mem_entries_iff m e.1 e.2).1 he⟩
  · rintro ⟨v, h⟩
    exact List.mem_map.2 ⟨(k, v), (mem_entries_iff m k v).2 h, rfl⟩

theorem contains_iff (m : IdMap α) (k : Int) : m.contains k = true ↔ k ∈ m.keys := by
  rw [mem_keys_iff, contains, Option.isSome_iff_exists]

/-! ## 4. Equality -/

theorem entries_ext : ∀ {xs ys : List (Int × α)}, Ascending xs → Ascending ys →
    (∀ e, e ∈ xs ↔ e ∈ ys) → xs = ys
  | [], [], _, _, _ => rfl
  | [], y :: _, _, _, h => absurd ((h y).2 List.mem_cons_self) (by simp)
  | x :: _, [], _, _, h => absurd ((h x).1 List.mem_cons_self) (by simp)
  | x :: xs, y :: ys, hx, hy, h => by
    have hx' := List.pairwise_cons.1 hx
    have hy' := List.pairwise_cons.1 hy
    have hxy : x = y := by
      rcases List.mem_cons.1 ((h x).1 List.mem_cons_self) with h1 | h1
      · exact h1
      · rcases List.mem_cons.1 ((h y).2 List.mem_cons_self) with h2 | h2
        · exact h2.symm
        · have a1 := hy'.1 x h1
          have a2 := hx'.1 y h2
          omega
    subst hxy
    have ht : xs = ys := entries_ext hx'.2 hy'.2 fun e => by
      constructor
      · intro he
        rcases List.mem_cons.1 ((h e).1 (List.mem_cons_of_mem _ he)) with h1 | h1
        · subst h1
          exact absurd (hx'.1 e he) (Int.lt_irrefl _)
        · exact h1
      · intro he
        rcases List.mem_cons.1 ((h e).2 (List.mem_cons_of_mem _ he)) with h1 | h1
        · subst h1
          exact absurd (hy'.1 e he) (Int.lt_irrefl _)
        · exact h1
    rw [ht]

/-- Maps that answer every look-up alike are equal. -/
theorem ext_get? {a b : IdMap α} (h : ∀ id, a.get? id = b.get? id) : a = b := by
  have he : a.entries = b.entries := entries_ext a.ascending b.ascending fun e => by
    rw [mem_entries_iff a e.1 e.2, mem_entries_iff b e.1 e.2, h]
  cases a
  cases b
  simp only at he
  subst he
  rfl

end IdMap

end Reckoner
