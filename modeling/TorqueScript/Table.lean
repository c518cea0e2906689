/-!
Finite tables from keys to values, kept as a list of entries in the order in
which the keys first arrived. The view of a table is `get?`; every operation is
described by what it does to that view.
-/

namespace TorqueScript

/-- A finite table. The first entry of a key is the one that counts. -/
structure Table (κ : Type) (α : Type) where
  entries : List (κ × α) := []

namespace Table

variable {κ α : Type} [DecidableEq κ]

instance : EmptyCollection (Table κ α) := ⟨⟨[]⟩⟩

instance : Inhabited (Table κ α) := ⟨⟨[]⟩⟩

private def find (key : κ) : List (κ × α) → Option α
  | [] => none
  | (k, a) :: rest => if k = key then some a else find key rest

private def put (key : κ) (value : α) : List (κ × α) → List (κ × α)
  | [] => [(key, value)]
  | (k, a) :: rest => if k = key then (k, value) :: rest else (k, a) :: put key value rest

def get? (t : Table κ α) (key : κ) : Option α :=
  find key t.entries

def contains (t : Table κ α) (key : κ) : Bool :=
  (t.get? key).isSome

/-- Gives `key` the value `value`. A key that is present keeps its place. -/
def insert (t : Table κ α) (key : κ) (value : α) : Table κ α :=
  ⟨put key value t.entries⟩

def erase (t : Table κ α) (key : κ) : Table κ α :=
  ⟨t.entries.filter fun e => !decide (e.1 = key)⟩

def size (t : Table κ α) : Nat :=
  t.entries.length

@[simp]
theorem get?_empty (key : κ) : (∅ : Table κ α).get? key = none := rfl

private theorem find_put (key other : κ) (value : α) (es : List (κ × α)) :
    find other (put key value es) = if key = other then some value else find other es := by
  induction es with
  | nil => rfl
  | cons e rest ih =>
    obtain ⟨k, a⟩ := e
    by_cases hk : k = key
    · subst k
      by_cases ho : key = other <;> simp [put, find, ho]
    · by_cases ho : k = other
      · subst other
        simp [put, find, hk, Ne.symm hk]
      · simp only [put, find, hk, ho, if_false, ih]

private theorem find_filter (key other : κ) (es : List (κ × α)) :
    find other (es.filter fun e => !decide (e.1 = key)) =
      if key = other then none else find other es := by
  induction es with
  | nil => simp [find]
  | cons e rest ih =>
    obtain ⟨k, a⟩ := e
    by_cases hk : k = key
    · subst k
      by_cases ho : key = other
      · simpa [ho] using ih
      · simpa [find, ho] using ih
    · by_cases ho : k = other
      · subst other
        simp [find, hk, Ne.symm hk]
      · simpa [find, hk, ho] using ih

theorem get?_insert (t : Table κ α) (key other : κ) (value : α) :
    (t.insert key value).get? other = if key = other then some value else t.get? other :=
  find_put key other value t.entries

theorem get?_erase (t : Table κ α) (key other : κ) :
    (t.erase key).get? other = if key = other then none else t.get? other :=
  find_filter key other t.entries

@[simp]
theorem get?_insert_self (t : Table κ α) (key : κ) (value : α) :
    (t.insert key value).get? key = some value := by
  simp [get?_insert]

@[simp]
theorem get?_erase_self (t : Table κ α) (key : κ) : (t.erase key).get? key = none := by
  simp [get?_erase]

private theorem mem_of_find {key : κ} {value : α} {es : List (κ × α)}
    (h : find key es = some value) : (key, value) ∈ es := by
  induction es with
  | nil => simp [find] at h
  | cons e rest ih =>
    obtain ⟨k, a⟩ := e
    by_cases hk : k = key
    · subst k
      have ha : a = value := by simpa [find] using h
      subst a
      exact List.mem_cons_self ..
    · exact List.mem_cons_of_mem _ (ih (by simpa [find, hk] using h))

theorem mem_of_get? {t : Table κ α} {key : κ} {value : α} (h : t.get? key = some value) :
    (key, value) ∈ t.entries :=
  mem_of_find h

theorem mem_keys_of_get? {t : Table κ α} {key : κ} {value : α} (h : t.get? key = some value) :
    key ∈ t.entries.map Prod.fst :=
  List.mem_map.mpr ⟨_, mem_of_get? h, rfl⟩

private theorem mem_put {key : κ} {value : α} {es : List (κ × α)} {e : κ × α}
    (h : e ∈ put key value es) : e = (key, value) ∨ e ∈ es := by
  induction es with
  | nil => exact Or.inl (by simpa [put] using h)
  | cons first rest ih =>
    obtain ⟨k, a⟩ := first
    by_cases hk : k = key
    · subst k
      simp only [put, if_true, List.mem_cons] at h ⊢
      exact h.imp_right Or.inr
    · simp only [put, hk, if_false, List.mem_cons] at h ⊢
      rcases h with rfl | h
      · exact Or.inr (Or.inl rfl)
      · exact (ih h).imp_right Or.inr

theorem mem_entries_insert {t : Table κ α} {key : κ} {value : α} {e : κ × α}
    (h : e ∈ (t.insert key value).entries) : e = (key, value) ∨ e ∈ t.entries :=
  mem_put h

/-- No key has two entries, so that each entry counts. -/
def Distinct (t : Table κ α) : Prop :=
  (t.entries.map Prod.fst).Nodup

omit [DecidableEq κ] in
theorem distinct_empty : (∅ : Table κ α).Distinct := List.nodup_nil

private theorem mem_keys_put {key other : κ} {value : α} {es : List (κ × α)}
    (h : other ∈ (put key value es).map Prod.fst) :
    other = key ∨ other ∈ es.map Prod.fst := by
  induction es with
  | nil => exact Or.inl (by simpa [put] using h)
  | cons e rest ih =>
    obtain ⟨k, a⟩ := e
    by_cases hk : k = key
    · exact Or.inr (by simpa [put, hk] using h)
    · simp only [put, hk, if_false, List.map_cons, List.mem_cons] at h ⊢
      rcases h with rfl | h
      · exact Or.inr (Or.inl rfl)
      · exact (ih h).imp_right Or.inr

private theorem nodup_put (key : κ) (value : α) {es : List (κ × α)}
    (h : (es.map Prod.fst).Nodup) : ((put key value es).map Prod.fst).Nodup := by
  induction es with
  | nil => simp [put]
  | cons e rest ih =>
    obtain ⟨k, a⟩ := e
    obtain ⟨hnew, hrest⟩ := List.nodup_cons.mp h
    by_cases hk : k = key
    · simpa [put, hk] using h
    · simp only [put, hk, if_false, List.map_cons, List.nodup_cons]
      refine ⟨fun hmem => ?_, ih hrest⟩
      rcases mem_keys_put hmem with rfl | hold
      · exact hk rfl
      · exact hnew hold

theorem Distinct.insert {t : Table κ α} (h : t.Distinct) (key : κ) (value : α) :
    (t.insert key value).Distinct :=
  nodup_put key value h

private theorem filter_key_eq {es : List (κ × α)} (h : (es.map Prod.fst).Nodup) (key : κ) :
    es.filter (fun e => decide (e.1 = key)) = (find key es).toList.map (key, ·) := by
  induction es with
  | nil => rfl
  | cons e rest ih =>
    obtain ⟨k, a⟩ := e
    obtain ⟨hnew, hrest⟩ := List.nodup_cons.mp h
    by_cases hk : k = key
    · subst k
      have hnone : rest.filter (fun e => decide (e.1 = key)) = [] := by
        rw [List.filter_eq_nil_iff]
        intro e he
        have hne : e.1 ≠ key := by
          intro heq
          subst heq
          exact hnew (List.mem_map.mpr ⟨e, he, rfl⟩)
        simpa using hne
      simp [find, hnone]
    · simpa [find, hk] using ih hrest

/-- The entries of one key are what the table holds under it. -/
theorem Distinct.filter_key {t : Table κ α} (h : t.Distinct) (key : κ) :
    t.entries.filter (fun e => decide (e.1 = key)) = (t.get? key).toList.map (key, ·) :=
  filter_key_eq h key

theorem contains_iff (t : Table κ α) (key : κ) :
    t.contains key = true ↔ ∃ a, t.get? key = some a := by
  simp [contains, Option.isSome_iff_exists]

/-- A table with every value changed in the same way. -/
def map {γ : Type} (f : α → γ) (t : Table κ α) : Table κ γ :=
  ⟨t.entries.map fun e => (e.1, f e.2)⟩

variable {γ : Type}

omit [DecidableEq κ] in
theorem entries_map (f : α → γ) (t : Table κ α) :
    (t.map f).entries = t.entries.map fun e => (e.1, f e.2) := rfl

omit [DecidableEq κ] in
@[simp]
theorem map_empty (f : α → γ) : (∅ : Table κ α).map f = ∅ := rfl

theorem get?_map (f : α → γ) (t : Table κ α) (key : κ) :
    (t.map f).get? key = (t.get? key).map f := by
  obtain ⟨es⟩ := t
  show find key (es.map fun e => (e.1, f e.2)) = (find key es).map f
  induction es with
  | nil => rfl
  | cons e rest ih => by_cases h : e.1 = key <;> simp [find, h, ih]

theorem contains_map (f : α → γ) (t : Table κ α) (key : κ) :
    (t.map f).contains key = t.contains key := by
  rw [contains, get?_map, contains, Option.isSome_map]

theorem map_insert (f : α → γ) (t : Table κ α) (key : κ) (value : α) :
    (t.insert key value).map f = (t.map f).insert key (f value) := by
  obtain ⟨es⟩ := t
  refine congrArg Table.mk ?_
  show (put key value es).map (fun e => (e.1, f e.2)) =
    put key (f value) (es.map fun e => (e.1, f e.2))
  induction es with
  | nil => rfl
  | cons e rest ih => by_cases h : e.1 = key <;> simp [put, h, ih]

theorem map_erase (f : α → γ) (t : Table κ α) (key : κ) :
    (t.erase key).map f = (t.map f).erase key := by
  simp only [map, erase, List.filter_map, Function.comp_def]

end Table

end TorqueScript
