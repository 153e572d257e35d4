import Mathlib.Data.Finset.Card
import Mathlib.Data.List.Induction
import Trellis.Recent
/-!
# Recent — what a bounded store keeps

A store is asked to store, to fetch, to look, and to remove, in any order. What it
has under a key is what was stored there last, for whatever replaces a value or
removes a key takes the old entry away (`latest_of_mem`). A key that is used goes to
the front, and what comes to stand in front of it is used later (`Behind.step`); so a
key stays while fewer other keys are used than there is room for (`Behind.after`).
Together they say what a store keeps over every run (`kept_over_runs`).
-/

namespace Trellis

namespace Recent

universe u

variable {α : Type u}

/-! ## Runs -/

/-- **What comes to a store.** -/
inductive Call (α : Type u) where
  /-- A value is stored. -/
  | store (key : String) (value : α)
  /-- A value is asked for. -/
  | fetch (key : String)
  /-- It is asked whether a key is there. -/
  | contains (key : String)
  /-- A key is removed. -/
  | remove (key : String)
  /-- Everything is removed. -/
  | clear

namespace Call

/-- Whether a value is stored under a key. -/
def Stores (key : String) : Call α → Prop
  | store other _ => other = key
  | _ => False

/-- Whether a key is removed. -/
def Removes (key : String) : Call α → Prop
  | remove other => other = key
  | clear => True
  | _ => False

end Call

/-- The store behind a call. -/
def step (r : Recent α) : Call α → Recent α
  | .store key value => r.store key value
  | .fetch key => (r.fetch key).2
  | .contains _ => r
  | .remove key => r.remove key
  | .clear => r.clear

/-- The store behind calls. -/
def after (r : Recent α) (calls : List (Call α)) : Recent α :=
  calls.foldl step r

/-- The key that a call uses: one that it stores, or one that it fetches and finds. -/
def used? (r : Recent α) : Call α → Option String
  | .store key _ => some key
  | .fetch key => if r.contains key then some key else none
  | _ => none

/-- The keys that calls use, one after another. -/
def usedBy (r : Recent α) : List (Call α) → List String
  | [] => []
  | call :: calls => (r.used? call).toList ++ usedBy (r.step call) calls

/-- The keys that are there, the one used last in front. -/
def keys (r : Recent α) : List String :=
  r.entries.map Prod.fst

variable {r : Recent α} {call : Call α} {calls : List (Call α)} {key other : String} {value : α}
  {entry : String × α} {newer newer' : Finset String}

@[simp] theorem after_nil (r : Recent α) : r.after [] = r := rfl

@[simp] theorem after_cons (r : Recent α) (call : Call α) (calls : List (Call α)) :
    r.after (call :: calls) = (r.step call).after calls := rfl

theorem after_append (r : Recent α) (first second : List (Call α)) :
    r.after (first ++ second) = (r.after first).after second := by
  simp [after]

theorem contains_iff : r.contains key = true ↔ key ∈ r.keys := by
  simp [contains, find?, keys]

theorem mem_others_iff : entry ∈ r.others key ↔ entry ∈ r.entries ∧ entry.1 ≠ key := by
  simp [others]

/-- Fetching finds an entry and moves it, or finds none and moves nothing. -/
theorem fetch_cases (r : Recent α) (key : String) :
    (∃ value, (key, value) ∈ r.entries ∧
      r.fetch key = (some value, { r with entries := (key, value) :: r.others key })) ∨
    r.contains key = false ∧ r.fetch key = (none, r) := by
  unfold fetch contains
  cases hfind : r.find? key with
  | none => exact .inr ⟨rfl, rfl⟩
  | some entry =>
    obtain ⟨other, value⟩ := entry
    obtain rfl : other = key := by simpa using List.find?_some hfind
    exact .inl ⟨value, List.mem_of_find?_eq_some hfind, rfl⟩

/-! ## Sound stores -/

/-- **That a store is sound**: it has some room, its keys differ, and there are no
more of them than there is room for. -/
structure Sound (r : Recent α) : Prop where
  /-- There is room for an entry. -/
  roomy : 0 < r.capacity
  /-- No key is there twice. -/
  distinct : r.keys.Nodup
  /-- There are no more entries than there is room for. -/
  bounded : r.size ≤ r.capacity

theorem sound_empty (capacity : Nat) : (empty capacity : Recent α).Sound where
  roomy := Nat.le_max_right capacity 1
  distinct := List.nodup_nil
  bounded := Nat.zero_le _

/-- Other keys are fewer than all keys. -/
theorem length_others_lt (h : entry ∈ r.entries) (hkey : entry.1 = key) :
    (r.others key).length < r.size :=
  List.length_filter_lt_length_iff_exists.2 ⟨entry, h, by simp [hkey]⟩

namespace Sound

/-- A key in front of the others is there once. -/
theorem nodup_moved (h : r.Sound) (key : String) (value : α) :
    (((key, value) :: r.others key).map Prod.fst).Nodup := by
  rw [List.map_cons, List.nodup_cons]
  constructor
  · intro hmem
    obtain ⟨entry, hentry, hkey⟩ := List.mem_map.1 hmem
    exact (mem_others_iff.1 hentry).2 hkey
  · exact h.distinct.sublist (List.filter_sublist.map Prod.fst)

theorem store (h : r.Sound) (key : String) (value : α) : (r.store key value).Sound where
  roomy := h.roomy
  distinct := (h.nodup_moved key value).sublist ((List.take_sublist _ _).map Prod.fst)
  bounded := List.length_take_le _ _

theorem remove (h : r.Sound) (key : String) : (r.remove key).Sound where
  roomy := h.roomy
  distinct := h.distinct.sublist (List.filter_sublist.map Prod.fst)
  bounded := Nat.le_trans (List.length_filter_le _ _) h.bounded

/-- **Fetching what is there is storing it again.** Nothing goes, since it makes room
for itself. -/
theorem fetch_eq_store (h : r.Sound) (hmem : (key, value) ∈ r.entries) :
    ({ r with entries := (key, value) :: r.others key } : Recent α) = r.store key value := by
  have hlength : ((key, value) :: r.others key).length ≤ r.capacity :=
    Nat.le_trans (length_others_lt hmem rfl) h.bounded
  rw [Recent.store, List.take_of_length_le hlength]

/-- **What a call does to a sound store.** One that uses a key stores it, with the
value that it brings or finds; any other removes something or does nothing. -/
theorem step_cases (h : r.Sound) (call : Call α) :
    (∃ key value, r.used? call = some key ∧ r.step call = r.store key value ∧
      (call = .store key value ∨ call = .fetch key ∧ (key, value) ∈ r.entries)) ∨
    (r.used? call = none ∧ ((∃ key, call = .contains key ∨ call = .fetch key) ∧ r.step call = r ∨
      (∃ key, call = .remove key) ∨ call = .clear)) := by
  cases call with
  | store key value => exact .inl ⟨key, value, rfl, rfl, .inl rfl⟩
  | fetch key =>
    rcases fetch_cases r key with ⟨value, hmem, hfetch⟩ | ⟨habsent, hfetch⟩
    · have hthere : r.contains key = true := contains_iff.2 (List.mem_map_of_mem hmem)
      refine .inl ⟨key, value, by simp [used?, hthere], ?_, .inr ⟨rfl, hmem⟩⟩
      rw [step, hfetch]
      exact h.fetch_eq_store hmem
    · exact .inr ⟨by simp [used?, habsent], .inl ⟨⟨key, .inr rfl⟩, by rw [step, hfetch]⟩⟩
  | contains key => exact .inr ⟨rfl, .inl ⟨⟨key, .inl rfl⟩, rfl⟩⟩
  | remove key => exact .inr ⟨rfl, .inr (.inl ⟨key, rfl⟩)⟩
  | clear => exact .inr ⟨rfl, .inr (.inr rfl)⟩

theorem step (h : r.Sound) (call : Call α) : (r.step call).Sound := by
  rcases h.step_cases call with
    ⟨key, value, -, hstep, -⟩ | ⟨-, ⟨-, hstep⟩ | ⟨key, rfl⟩ | rfl⟩
  · rw [hstep]
    exact h.store key value
  · rwa [hstep]
  · exact h.remove key
  · exact ⟨h.roomy, List.nodup_nil, Nat.zero_le _⟩

/-- **A sound store stays sound.** -/
theorem after (h : r.Sound) (calls : List (Call α)) : (r.after calls).Sound := by
  induction calls generalizing r with
  | nil => exact h
  | cons call calls ih => exact ih (h.step call)

end Sound

theorem capacity_step (r : Recent α) (call : Call α) : (r.step call).capacity = r.capacity := by
  cases call with
  | fetch key =>
    rcases fetch_cases r key with ⟨value, -, hfetch⟩ | ⟨-, hfetch⟩ <;> simp [step, hfetch]
  | store | contains | remove | clear => rfl

theorem capacity_after (r : Recent α) (calls : List (Call α)) :
    (r.after calls).capacity = r.capacity := by
  induction calls generalizing r with
  | nil => rfl
  | cons call calls ih => rw [after_cons, ih, capacity_step]

/-! ## Which value is there -/

/-- **That a value was stored last under a key**, and the key not removed since. -/
def Latest (calls : List (Call α)) (key : String) (value : α) : Prop :=
  ∃ earlier later, calls = earlier ++ .store key value :: later ∧
    ∀ call ∈ later, ¬ call.Stores key ∧ ¬ call.Removes key

theorem Latest.concat (h : Latest calls key value) (hstores : ¬ call.Stores key)
    (hremoves : ¬ call.Removes key) : Latest (calls ++ [call]) key value := by
  obtain ⟨earlier, later, rfl, hlater⟩ := h
  refine ⟨earlier, later ++ [call], by simp, fun last hlast => ?_⟩
  rcases List.mem_append.1 hlast with hlast | hlast
  · exact hlater last hlast
  · rw [List.mem_singleton.1 hlast]
    exact ⟨hstores, hremoves⟩

/-- **An entry behind a call** is what the call stored, or it was there before and the
call neither replaced nor removed it. -/
theorem mem_step (h : entry ∈ (r.step call).entries) :
    call = .store entry.1 entry.2 ∨
      entry ∈ r.entries ∧ ¬ call.Stores entry.1 ∧ ¬ call.Removes entry.1 := by
  cases call with
  | store key value =>
    rcases List.mem_cons.1 (List.mem_of_mem_take h) with rfl | h
    · exact .inl rfl
    · obtain ⟨hmem, hne⟩ := mem_others_iff.1 h
      exact .inr ⟨hmem, Ne.symm hne, id⟩
  | fetch key =>
    rcases fetch_cases r key with ⟨value, hmem, hfetch⟩ | ⟨-, hfetch⟩
    · exact .inr ⟨(mem_of_fetch hfetch).2 entry (by rwa [step, hfetch] at h), id, id⟩
    · exact .inr ⟨by rwa [step, hfetch] at h, id, id⟩
  | contains key => exact .inr ⟨h, id, id⟩
  | remove key =>
    obtain ⟨hmem, hne⟩ := mem_remove_iff.1 h
    exact .inr ⟨hmem, id, Ne.symm hne⟩
  | clear => cases h

/-- **What is there was stored last.** -/
theorem latest_of_mem {capacity : Nat}
    (h : (key, value) ∈ ((empty capacity).after calls).entries) : Latest calls key value := by
  induction calls using List.reverseRecOn with
  | nil => cases h
  | append_singleton calls call ih =>
    rw [after_append] at h
    rcases mem_step h with rfl | ⟨hmem, hstores, hremoves⟩
    · exact ⟨calls, [], rfl, List.forall_mem_nil _⟩
    · exact (ih hmem).concat hstores hremoves

/-! ## Which keys are there -/

/-- **That only given keys stand in front of a key.** -/
def Behind (r : Recent α) (key : String) (newer : Finset String) : Prop :=
  ∃ front value back, r.entries = front ++ (key, value) :: back ∧ ∀ entry ∈ front, entry.1 ∈ newer

namespace Behind

theorem mono (h : r.Behind key newer) (hsubset : newer ⊆ newer') : r.Behind key newer' := by
  obtain ⟨front, value, back, hentries, hfront⟩ := h
  exact ⟨front, value, back, hentries, fun entry hentry => hsubset (hfront entry hentry)⟩

theorem contains (h : r.Behind key newer) : r.contains key = true := by
  obtain ⟨front, value, back, hentries, -⟩ := h
  exact contains_iff.2 (by simp [keys, hentries])

/-- Nothing stands in front of the key that is stored. -/
theorem store_self (h : r.Sound) (key : String) (value : α) : (r.store key value).Behind key ∅ := by
  obtain ⟨room, hroom⟩ := Nat.exists_eq_succ_of_ne_zero h.roomy.ne'
  refine ⟨[], value, (r.others key).take room, ?_, List.forall_mem_nil _⟩
  rw [Recent.store, hroom, List.take_succ_cons, List.nil_append]

/-- **A key that is stored goes in front of another**, which stays if those in front of
it are fewer than there is room for. -/
theorem store (h : r.Behind key newer) (hsound : r.Sound) (hne : other ≠ key)
    (hroom : (insert other newer).card < r.capacity) (value : α) :
    (r.store other value).Behind key (insert other newer) := by
  obtain ⟨front, found, back, hentries, hfront⟩ := h
  let front' := (other, value) :: front.filter fun e => e.1 != other
  let back' := back.filter fun e => e.1 != other
  have hmoved : (other, value) :: r.others other = front' ++ (key, found) :: back' := by
    rw [others, hentries, List.filter_append, List.filter_cons_of_pos (by simpa using hne.symm)]
    rfl
  have hmem : ∀ entry ∈ front', entry.1 ∈ insert other newer := by
    refine List.forall_mem_cons.2 ⟨Finset.mem_insert_self _ _, fun entry hentry => ?_⟩
    exact Finset.mem_insert_of_mem (hfront entry (List.mem_filter.1 hentry).1)
  -- the keys in front differ and are among the given ones, so they leave room
  have hlength : front'.length < r.capacity := by
    have hdistinct : (front'.map Prod.fst).Nodup := by
      have hall := hsound.nodup_moved other value
      rw [hmoved] at hall
      exact hall.sublist ((List.sublist_append_left _ _).map Prod.fst)
    have hsubset : (front'.map Prod.fst).toFinset ⊆ insert other newer := by
      intro name hname
      obtain ⟨entry, hentry, rfl⟩ := List.mem_map.1 (List.mem_toFinset.1 hname)
      exact hmem entry hentry
    calc front'.length = (front'.map Prod.fst).toFinset.card := by
          rw [List.toFinset_card_of_nodup hdistinct, List.length_map]
      _ ≤ (insert other newer).card := Finset.card_le_card hsubset
      _ < r.capacity := hroom
  obtain ⟨left, hleft⟩ := Nat.exists_eq_add_of_lt hlength
  refine ⟨front', found, back'.take left, ?_, hmem⟩
  rw [Recent.store, hmoved, hleft, Nat.add_assoc, List.take_length_add_append, List.take_succ_cons]

/-- Removing another key leaves a key where it is. -/
theorem remove (h : r.Behind key newer) (hne : other ≠ key) : (r.remove other).Behind key newer := by
  obtain ⟨front, found, back, hentries, hfront⟩ := h
  refine ⟨front.filter fun e => e.1 != other, found, back.filter fun e => e.1 != other, ?_, ?_⟩
  · rw [Recent.remove, others, hentries, List.filter_append,
      List.filter_cons_of_pos (by simpa using hne.symm)]
  · exact fun entry hentry => hfront entry (List.mem_filter.1 hentry).1

/-- **What a call puts in front of a key** is the other key that it uses. -/
theorem step (h : r.Behind key newer) (hsound : r.Sound) (hkept : ¬ call.Removes key)
    (hroom : (newer ∪ (r.used? call).toList.toFinset.erase key).card < r.capacity) :
    (r.step call).Behind key (newer ∪ (r.used? call).toList.toFinset.erase key) := by
  rcases hsound.step_cases call with
    ⟨other, value, hused, hstep, -⟩ | ⟨hunused, ⟨-, hstep⟩ | ⟨other, rfl⟩ | rfl⟩
  · rw [hstep]
    by_cases hother : other = key
    · subst hother
      exact (store_self hsound other value).mono (Finset.empty_subset _)
    · have hset : newer ∪ (r.used? call).toList.toFinset.erase key = insert other newer := by
        ext name
        simp only [hused, Option.toList_some, List.toFinset_cons, List.toFinset_nil]
        grind
      rw [hset] at hroom ⊢
      exact h.store hsound hother hroom value
  · rw [hstep]
    exact h.mono Finset.subset_union_left
  · exact (h.remove hkept).mono Finset.subset_union_left
  · exact absurd trivial hkept

/-- **A key stays while fewer others are used than there is room for.** -/
theorem after (h : r.Behind key newer) (hsound : r.Sound)
    (hkept : ∀ call ∈ calls, ¬ call.Removes key)
    (hroom : (newer ∪ (r.usedBy calls).toFinset.erase key).card < r.capacity) :
    (r.after calls).Behind key (newer ∪ (r.usedBy calls).toFinset.erase key) := by
  induction calls generalizing r newer with
  | nil => exact h.mono Finset.subset_union_left
  | cons call calls ih =>
    have hset : newer ∪ (r.usedBy (call :: calls)).toFinset.erase key =
        newer ∪ (r.used? call).toList.toFinset.erase key ∪
          ((r.step call).usedBy calls).toFinset.erase key := by
      rw [usedBy, List.toFinset_append, Finset.erase_union_distrib, Finset.union_assoc]
    rw [hset] at hroom ⊢
    obtain ⟨hcall, hcalls⟩ := List.forall_mem_cons.1 hkept
    have hfirst := Nat.lt_of_le_of_lt (Finset.card_le_card Finset.subset_union_left) hroom
    rw [← capacity_step r call] at hroom
    exact ih (h.step hsound hcall hfirst) (hsound.step call) hcalls hroom

end Behind

/-- A key that a call uses is in front of all others behind it. -/
theorem behind_of_used (hsound : r.Sound) (hused : r.used? call = some key) :
    (r.step call).Behind key ∅ := by
  rcases hsound.step_cases call with ⟨other, value, hother, hstep, -⟩ | ⟨hunused, -⟩
  · obtain rfl : key = other := Option.some.inj (hused.symm.trans hother)
    rw [hstep]
    exact Behind.store_self hsound key value
  · cases hused.symm.trans hunused

/-! ## Which key goes next -/

/-- **Storing a new key in a full store** takes the last entry and no other. -/
theorem store_of_full (hsound : r.Sound) (hfull : r.size = r.capacity)
    (hnew : r.contains key = false) (value : α) :
    ∃ kept oldest, r.entries = kept ++ [oldest] ∧
      (r.store key value).entries = (key, value) :: kept := by
  have hothers : r.others key = r.entries := by
    refine List.filter_eq_self.2 fun entry hentry => ?_
    have hne : entry.1 ≠ key := by
      rintro rfl
      rw [contains_iff.2 (List.mem_map_of_mem hentry)] at hnew
      cases hnew
    simpa using hne
  have hsize : r.entries.length = r.capacity := hfull
  obtain ⟨room, hroom⟩ := Nat.exists_eq_succ_of_ne_zero hsound.roomy.ne'
  have hne : r.entries ≠ [] := by
    rintro hnil
    rw [hnil] at hsize
    exact hsound.roomy.ne hsize
  refine ⟨r.entries.dropLast, r.entries.getLast hne, (List.dropLast_append_getLast hne).symm, ?_⟩
  rw [Recent.store, hothers, hroom, List.take_succ_cons, List.dropLast_eq_take, hsize, hroom]
  rfl

/-- **What a store keeps over every run.** No key is there twice, and there are no more
than there is room for, which is for one at least. What is fetched is what was stored
last under its key, not removed since. A key that was used is there as long as it is
not removed and fewer other keys are used than there is room for. A new key takes the
last entry of a full store; and a fetch that finds nothing, like a look, can be left
out of a run, so it has no part in which entry that is. -/
theorem kept_over_runs (capacity : Nat) (calls : List (Call α)) :
    let start : Recent α := empty capacity
    let r := start.after calls
    (r.keys.Nodup ∧ r.size ≤ max capacity 1) ∧
    (∀ key value, (r.fetch key).1 = some value → Latest calls key value) ∧
    (∀ earlier use later key, calls = earlier ++ use :: later →
      (start.after earlier).used? use = some key → (∀ call ∈ later, ¬ call.Removes key) →
      (((start.after (earlier ++ [use])).usedBy later).toFinset.erase key).card < max capacity 1 →
      r.contains key = true) ∧
    (∀ key value, r.size = max capacity 1 → r.contains key = false →
      ∃ kept oldest, r.entries = kept ++ [oldest] ∧
        (r.store key value).entries = (key, value) :: kept) ∧
    ∀ key call, call = .contains key ∨ call = .fetch key ∧ (r.fetch key).1 = none →
      ∀ later, start.after (calls ++ call :: later) = start.after (calls ++ later) := by
  intro start r
  have hstart : start.Sound := sound_empty capacity
  have hsound : r.Sound := hstart.after calls
  have hcapacity : r.capacity = max capacity 1 := capacity_after start calls
  refine ⟨⟨hsound.distinct, hcapacity ▸ hsound.bounded⟩, fun key value h => ?_,
    fun earlier use later key hcalls hused hkept hroom => ?_,
    fun key value hfull hnew => store_of_full hsound (hfull.trans hcapacity.symm) hnew value,
    fun key call h later => ?_⟩
  · rcases fetch_cases r key with ⟨found, hmem, hfetch⟩ | ⟨-, hfetch⟩
    · rw [hfetch] at h
      obtain rfl := Option.some.inj h
      exact latest_of_mem hmem
    · rw [hfetch] at h
      cases h
  · have hbehind := behind_of_used (hstart.after earlier) hused
    have hthere : start.after (earlier ++ [use]) = (start.after earlier).step use := by
      rw [after_append]
      rfl
    rw [hthere] at hroom
    have hroom' : (∅ ∪ (((start.after earlier).step use).usedBy later).toFinset.erase key).card <
        ((start.after earlier).step use).capacity := by
      rw [Finset.empty_union, capacity_step, capacity_after]
      exact hroom
    have hlast := (hbehind.after ((hstart.after earlier).step use) hkept hroom').contains
    rw [← hthere, ← after_append, List.append_assoc, List.singleton_append, ← hcalls] at hlast
    exact hlast
  · have hstep : r.step call = r := by
      rcases h with rfl | ⟨rfl, hmiss⟩
      · rfl
      · rcases fetch_cases r key with ⟨found, -, hfetch⟩ | ⟨-, hfetch⟩
        · rw [hfetch] at hmiss
          cases hmiss
        · rw [step, hfetch]
    rw [after_append, after_append, after_cons]
    exact congrArg (Recent.after · later) hstep

/-- The key that was fetched stays, and the one that was not goes. -/
theorem kept_over_runs_fetched :
    let r : Recent Nat := (empty 2).after [.store "a" 1, .store "b" 2, .fetch "a", .store "c" 3]
    (((empty 2 : Recent Nat).after [.store "a" 1, .store "b" 2]).used? (.fetch "a") = some "a") ∧
      r.contains "a" = true ∧ r.contains "b" = false := by
  intro r
  have hused : ((empty 2 : Recent Nat).after [.store "a" 1, .store "b" 2]).used? (.fetch "a") =
      some "a" := by decide
  have hkept : ∀ call ∈ [(.store "c" 3 : Call Nat)], ¬ call.Removes "a" :=
    List.forall_mem_singleton.2 id
  exact ⟨hused, (kept_over_runs 2 _).2.2.1 [.store "a" 1, .store "b" 2] (.fetch "a")
    [.store "c" 3] "a" rfl hused hkept (by decide), by decide⟩

end Recent

end Trellis
