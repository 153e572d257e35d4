/-!
# Recent — a bounded store that forgets the least recent

Entries are kept in the order of their last use, the latest first. Storing and
fetching move an entry to the front; when a new entry finds no room the last
one goes. Asking whether a key is there moves nothing. Main statements: which
entries there are after an operation.
-/

namespace Trellis

universe u

/-- Entries in the order of their last use, the latest first. -/
structure Recent (α : Type u) where
  /-- How many entries there may be. -/
  capacity : Nat
  /-- The entries. -/
  entries : List (String × α)

namespace Recent

variable {α : Type u}

/-- An empty store. It has room for one entry at least. -/
def empty (capacity : Nat) : Recent α :=
  ⟨max capacity 1, []⟩

/-- The entry under a key. -/
def find? (r : Recent α) (key : String) : Option (String × α) :=
  r.entries.find? fun e => e.1 == key

/-- The entries under other keys. -/
def others (r : Recent α) (key : String) : List (String × α) :=
  r.entries.filter fun e => e.1 != key

/-- **Fetches a value**, which makes it the latest. -/
def fetch (r : Recent α) (key : String) : Option α × Recent α :=
  match r.find? key with
  | some e => (some e.2, { r with entries := e :: r.others key })
  | none => (none, r)

/-- **Stores a value** as the latest; beyond the capacity the least recent
entry goes. -/
def store (r : Recent α) (key : String) (value : α) : Recent α :=
  { r with entries := ((key, value) :: r.others key).take r.capacity }

/-- Removes a key. -/
def remove (r : Recent α) (key : String) : Recent α :=
  { r with entries := r.others key }

/-- Removes everything. -/
def clear (r : Recent α) : Recent α :=
  { r with entries := [] }

/-- Whether a key is there. -/
def contains (r : Recent α) (key : String) : Bool :=
  (r.find? key).isSome

/-- Number of entries. -/
def size (r : Recent α) : Nat :=
  r.entries.length

@[simp] theorem entries_empty (capacity : Nat) : (empty capacity : Recent α).entries = [] := rfl

@[simp] theorem entries_clear (r : Recent α) : r.clear.entries = [] := rfl

/-- What is fetched is an entry, and the entries stay. -/
theorem mem_of_fetch {r r' : Recent α} {key : String} {value : α}
    (h : r.fetch key = (some value, r')) :
    (key, value) ∈ r.entries ∧ ∀ entry ∈ r'.entries, entry ∈ r.entries := by
  unfold fetch at h
  split at h
  · next found hfound =>
    obtain ⟨hvalue, rfl⟩ := Prod.mk.inj h
    have hmem : found ∈ r.entries := List.mem_of_find?_eq_some hfound
    have hkey : found.1 = key := by simpa using List.find?_some hfound
    constructor
    · rw [← hkey, ← Option.some.inj hvalue]
      exact hmem
    · intro entry hentry
      rcases List.mem_cons.1 hentry with rfl | hentry
      · exact hmem
      · exact (List.mem_filter.1 hentry).1
  · cases (Prod.mk.inj h).1

/-- What is stored is the only thing that is new. -/
theorem mem_of_store {r : Recent α} {key : String} {value : α} {entry : String × α}
    (h : entry ∈ (r.store key value).entries) : entry = (key, value) ∨ entry ∈ r.entries := by
  rcases List.mem_cons.1 (List.mem_of_mem_take h) with rfl | h
  · exact .inl rfl
  · exact .inr (List.mem_filter.1 h).1

/-- **Removing a key takes its entry and no other.** -/
theorem mem_remove_iff {r : Recent α} {key : String} {entry : String × α} :
    entry ∈ (r.remove key).entries ↔ entry ∈ r.entries ∧ entry.1 ≠ key := by
  simp [remove, others]

end Recent

end Trellis
