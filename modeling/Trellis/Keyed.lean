/-!
# Keyed — finite maps in the order of their keys

Entries under string keys, kept in the code-point order of the keys by every
operation that builds one. Objects of data, stores of documents and tables of
components are all of this kind, so what an answer lists is sorted by name.
Main statements: which keys have values, and what `insert` does to `get?`.
-/

namespace Trellis

universe u v

/-- Entries under string keys. -/
abbrev Keyed (α : Type u) := List (String × α)

namespace Keyed

variable {α : Type u} {β : Type v}

/-- The value under a key. -/
def get? : Keyed α → String → Option α
  | [], _ => none
  | (k, v) :: m, key => if k = key then some v else get? m key

/-- Whether a key has a value. -/
def contains (m : Keyed α) (key : String) : Bool :=
  (get? m key).isSome

/-- Puts a value under a key, in place of the one that was there. -/
def insert : Keyed α → String → α → Keyed α
  | [], key, value => [(key, value)]
  | (k, v) :: m, key, value =>
    if k = key then (key, value) :: m
    else if key < k then (key, value) :: (k, v) :: m
    else (k, v) :: insert m key value

/-- Removes a key. -/
def erase (m : Keyed α) (key : String) : Keyed α :=
  m.filter fun entry => entry.1 ≠ key

/-- The keys, in order. -/
def keys (m : Keyed α) : List String :=
  m.map Prod.fst

/-- The map of a list of entries, of which the last one under a key counts. -/
def ofList (entries : List (String × α)) : Keyed α :=
  entries.foldl (fun m entry => insert m entry.1 entry.2) []

@[simp] theorem get?_nil (key : String) : get? ([] : Keyed α) key = none := rfl

/-- What is found is an entry. -/
theorem mem_of_get? {m : Keyed α} {key : String} {value : α} (h : get? m key = some value) :
    (key, value) ∈ m := by
  induction m with
  | nil => cases h
  | cons entry m ih =>
    obtain ⟨k, v⟩ := entry
    rw [get?] at h
    split at h
    · next hkey =>
      obtain rfl := Option.some.inj h
      exact hkey ▸ List.mem_cons_self
    · exact List.mem_cons_of_mem _ (ih h)

/-- **Exactly the keys have values.** -/
theorem mem_keys_iff {m : Keyed α} {key : String} :
    key ∈ keys m ↔ ∃ value, get? m key = some value := by
  constructor
  · intro h
    induction m with
    | nil => cases h
    | cons entry m ih =>
      obtain ⟨k, v⟩ := entry
      rw [get?]
      split
      · exact ⟨v, rfl⟩
      · next hne => exact ih ((List.mem_cons.1 h).resolve_left fun hkey => hne hkey.symm)
  · rintro ⟨value, h⟩
    exact List.mem_map.2 ⟨_, mem_of_get? h, rfl⟩

/-- An entry is found if no other has its key. -/
theorem get?_of_mem {m : Keyed α} {key : String} {value : α} (hnodup : (keys m).Nodup)
    (h : (key, value) ∈ m) : get? m key = some value := by
  induction m with
  | nil => cases h
  | cons entry m ih =>
    obtain ⟨k, v⟩ := entry
    obtain ⟨hfresh, hnodup⟩ := List.nodup_cons.1 hnodup
    rw [get?]
    rcases List.mem_cons.1 h with h | h
    · obtain ⟨rfl, rfl⟩ := Prod.mk.inj h
      rw [if_pos rfl]
    · have hkey : key ∈ keys m := List.mem_map.2 ⟨_, h, rfl⟩
      have hne : k ≠ key := fun hk => hfresh (hk ▸ hkey)
      rw [if_neg hne]
      exact ih hnodup h

theorem get?_eq_none_iff {m : Keyed α} {key : String} : get? m key = none ↔ key ∉ keys m := by
  rw [mem_keys_iff, Option.eq_none_iff_forall_ne_some, not_exists]

theorem get?_append (m n : Keyed α) (key : String) :
    get? (m ++ n) key = (get? m key).or (get? n key) := by
  induction m with
  | nil => rfl
  | cons entry m ih =>
    obtain ⟨k, v⟩ := entry
    rw [List.cons_append, get?, get?]
    split
    · rfl
    · exact ih

/-- Where an entry stands does not matter if none before it has its key. -/
theorem get?_append_cons {m : Keyed α} {key : String} (hfresh : key ∉ keys m) (value : α)
    (n : Keyed α) (other : String) :
    get? (m ++ (key, value) :: n) other =
      if key = other then some value else get? (m ++ n) other := by
  rw [get?_append, get?_append, get?]
  split
  · next hkey =>
    subst hkey
    rw [get?_eq_none_iff.2 hfresh, Option.none_or]
  · rfl

theorem get?_map (f : α → β) (m : Keyed α) (key : String) :
    get? (m.map fun (k, v) => (k, f v)) key = (get? m key).map f := by
  induction m with
  | nil => rfl
  | cons entry m ih =>
    obtain ⟨k, v⟩ := entry
    rw [List.map_cons, get?, get?]
    split
    · rfl
    · exact ih

theorem get?_insert_self (m : Keyed α) (key : String) (value : α) :
    get? (insert m key value) key = some value := by
  induction m with
  | nil => simp [insert, get?]
  | cons entry m ih =>
    obtain ⟨k, v⟩ := entry
    by_cases h : k = key
    · simp [insert, get?, h]
    · by_cases hlt : key < k <;> simp [insert, get?, h, hlt, ih]

theorem get?_insert_of_ne (m : Keyed α) {key other : String} (value : α) (h : key ≠ other) :
    get? (insert m key value) other = get? m other := by
  induction m with
  | nil => simp [insert, get?, h]
  | cons entry m ih =>
    obtain ⟨k, v⟩ := entry
    by_cases hk : k = key
    · subst hk
      simp [insert, get?, h]
    · by_cases hlt : key < k <;> simp [insert, get?, h, hk, hlt, ih]

/-- **Reading after writing.** -/
theorem get?_insert (m : Keyed α) (key other : String) (value : α) :
    get? (insert m key value) other = if key = other then some value else get? m other := by
  by_cases h : key = other
  · subst h
    simp [get?_insert_self]
  · simp [get?_insert_of_ne m value h, h]

/-- Writing under a new key adds its entry to the others. -/
theorem insert_perm {m : Keyed α} {key : String} (h : get? m key = none) (value : α) :
    (insert m key value).Perm ((key, value) :: m) := by
  induction m with
  | nil => exact .refl _
  | cons entry m ih =>
    obtain ⟨k, v⟩ := entry
    by_cases hkey : k = key
    · simp [get?, hkey] at h
    · rw [get?, if_neg hkey] at h
      rw [insert, if_neg hkey]
      split
      · exact .refl _
      · exact ((ih h).cons (k, v)).trans (.swap (key, value) (k, v) m)

theorem contains_insert (m : Keyed α) (key other : String) (value : α) :
    contains (insert m key value) other = (decide (key = other) || contains m other) := by
  unfold contains
  rw [get?_insert]
  split <;> simp_all

end Keyed

end Trellis
