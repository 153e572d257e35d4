import Trellis.Json.Reader
import Trellis.Proofs.Except
/-!
# Json — fields in order

Values list the fields of their objects in the order of the keys, each key once
(`Value.Ordered`), as every value does that is read from a text (`ordered_of_decode`). Two
maps in order are the same map if they have the same values under all keys
(`Keyed.Sorted.ext`), so writing entries into one is known from what each makes of the value
under its key (`Keyed.writeAll_eq_iff`).
-/

namespace Trellis

namespace Keyed

universe u

variable {α : Type u} {m m' : Keyed α} {key : String} {value : α} {entry : String × α}

/-- That the entries stand in the order of their keys, each key once. -/
def Sorted (m : Keyed α) : Prop :=
  (keys m).Pairwise (· < ·)

instance (m : Keyed α) : Decidable (Sorted m) :=
  inferInstanceAs (Decidable ((keys m).Pairwise (· < ·)))

theorem sorted_nil : Sorted ([] : Keyed α) :=
  List.Pairwise.nil

theorem sorted_cons_iff :
    Sorted (entry :: m) ↔ (∀ e ∈ m, entry.1 < e.1) ∧ Sorted m := by
  simp only [Sorted, keys, List.map_cons, List.pairwise_cons, List.forall_mem_map]

theorem Sorted.nodup (h : Sorted m) : (keys m).Nodup := by
  refine List.Pairwise.imp ?_ h
  rintro k key hlt rfl
  exact String.lt_irrefl k hlt

/-- Of two different keys one is first. -/
theorem lt_of_not_lt {k key : String} (hne : k ≠ key) (hnot : ¬ key < k) : k < key := by
  refine Decidable.by_contra fun h => hne (String.le_antisymm ?_ ?_)
  · exact String.not_lt.1 hnot
  · exact String.not_lt.1 h

theorem mem_of_mem_insert (h : entry ∈ insert m key value) : entry = (key, value) ∨ entry ∈ m := by
  induction m with
  | nil => exact .inl (List.mem_singleton.1 h)
  | cons e m ih =>
    obtain ⟨k, v⟩ := e
    rw [insert] at h
    split at h
    · exact (List.mem_cons.1 h).imp_right (List.mem_cons_of_mem _)
    split at h
    · exact List.mem_cons.1 h
    · rcases List.mem_cons.1 h with rfl | h
      · exact .inr List.mem_cons_self
      · exact (ih h).imp_right (List.mem_cons_of_mem _)

theorem Sorted.insert (h : Sorted m) (key : String) (value : α) :
    Sorted (Keyed.insert m key value) := by
  induction m with
  | nil => exact List.pairwise_singleton _ _
  | cons e m ih =>
    obtain ⟨k, v⟩ := e
    obtain ⟨hfirst, hmore⟩ := sorted_cons_iff.1 h
    rw [Keyed.insert]
    split
    · next hkey => exact sorted_cons_iff.2 ⟨hkey ▸ hfirst, hmore⟩
    split
    · next hlt =>
      refine sorted_cons_iff.2 ⟨fun e he => ?_, h⟩
      rcases List.mem_cons.1 he with rfl | he
      · exact hlt
      · exact String.lt_trans hlt (hfirst e he)
    · next hkey hnot =>
      refine sorted_cons_iff.2 ⟨fun e he => ?_, ih hmore⟩
      rcases mem_of_mem_insert he with rfl | he
      · exact lt_of_not_lt hkey hnot
      · exact hfirst e he

theorem sorted_ofList (entries : List (String × α)) : Sorted (ofList entries) := by
  refine List.foldlRecOn entries _ sorted_nil fun m hm entry _ => hm.insert entry.1 entry.2

theorem mem_of_mem_ofList {entries : List (String × α)} (h : entry ∈ ofList entries) :
    entry ∈ entries := by
  have hfold : ∀ e ∈ ofList entries, e ∈ entries := by
    refine List.foldlRecOn (motive := fun m => ∀ e ∈ m, e ∈ entries) entries _
      (fun e he => absurd he List.not_mem_nil) ?_
    intro m hm entry hentry e he
    rcases mem_of_mem_insert he with rfl | he
    · exact hentry
    · exact hm e he
  exact hfold entry h

/-- Nothing is under a key that comes before all others. -/
theorem get?_eq_none_of_forall_lt (h : ∀ e ∈ m, key < e.1) : get? m key = none := by
  rw [Option.eq_none_iff_forall_ne_some]
  intro value hvalue
  exact String.lt_irrefl key (h _ (mem_of_get? hvalue))

/-- **Maps in order are settled by what is under each key.** -/
theorem Sorted.ext (h : Sorted m) (h' : Sorted m') (hget : ∀ key, get? m key = get? m' key) :
    m = m' := by
  induction m generalizing m' with
  | nil =>
    cases m' with
    | nil => rfl
    | cons e m' => simpa [get?] using hget e.1
  | cons e m ih =>
    cases m' with
    | nil => simpa [get?] using hget e.1
    | cons e' m' =>
      obtain ⟨k, v⟩ := e
      obtain ⟨k', v'⟩ := e'
      obtain ⟨hfirst, hmore⟩ := sorted_cons_iff.1 h
      obtain ⟨hfirst', hmore'⟩ := sorted_cons_iff.1 h'
      -- the first keys are the same, for each is found in the other map
      have hkey : k = k' := by
        refine Decidable.by_contra fun hne => ?_
        by_cases hlt : k < k'
        · have hnone := get?_eq_none_of_forall_lt fun e he => String.lt_trans hlt (hfirst' e he)
          have hfound := hget k
          simp [get?, Ne.symm hne, hnone] at hfound
        · have hlt := lt_of_not_lt (Ne.symm hne) hlt
          have hnone := get?_eq_none_of_forall_lt fun e he => String.lt_trans hlt (hfirst e he)
          have hfound := hget k'
          simp [get?, hne, hnone] at hfound
      subst hkey
      have hvalue : v = v' := by simpa [get?] using hget k
      subst hvalue
      rw [ih hmore hmore' fun key => ?_]
      by_cases hkey : k = key
      · subst hkey
        rw [get?_eq_none_of_forall_lt hfirst, get?_eq_none_of_forall_lt hfirst']
      · simpa [get?, hkey] using hget key

/-! ## Writing entries into a map -/

/-- The map after entries are written into it one by one, each as what it makes of the value
under its key. -/
def writeAll (onto : Option α → α → α) (m : Keyed α) (entries : List (String × α)) : Keyed α :=
  entries.foldl (fun m entry => insert m entry.1 (onto (get? m entry.1) entry.2)) m

variable {onto onto' : Option α → α → α} {entries : List (String × α)}

theorem Sorted.writeAll (h : Sorted m) (onto : Option α → α → α)
    (entries : List (String × α)) : Sorted (Keyed.writeAll onto m entries) :=
  List.foldlRecOn entries _ h fun _ hm _ _ => hm.insert _ _

/-- **What is under a key after entries with different keys are written.** -/
theorem get?_writeAll (hnodup : (keys entries).Nodup) (onto : Option α → α → α) (m : Keyed α)
    (key : String) :
    get? (writeAll onto m entries) key =
      match get? entries key with
      | some value => some (onto (get? m key) value)
      | none => get? m key := by
  induction entries generalizing m with
  | nil => rfl
  | cons entry entries ih =>
    obtain ⟨k, v⟩ := entry
    obtain ⟨hfresh, hnodup⟩ := List.nodup_cons.1 hnodup
    rw [writeAll, List.foldl_cons, ← writeAll, ih hnodup, get?, get?_insert]
    by_cases hkey : k = key
    · -- no later entry has this key again
      subst hkey
      have hnone : get? entries k = none := by
        rw [Option.eq_none_iff_forall_ne_some]
        exact fun w hw => hfresh (mem_keys_iff.2 ⟨w, hw⟩)
      simp [hnone]
    · simp [hkey]

/-- Entries with different keys are all found in their map. -/
theorem get?_ofList (hnodup : (keys entries).Nodup) (key : String) :
    get? (ofList entries) key = get? entries key := by
  have hwrite : ofList entries = writeAll (fun _ value => value) [] entries := rfl
  rw [hwrite, get?_writeAll hnodup]
  cases get? entries key with
  | none => rfl
  | some value => rfl

theorem mem_keys_writeAll_iff (hnodup : (keys entries).Nodup) (onto : Option α → α → α)
    (m : Keyed α) (key : String) :
    key ∈ keys (writeAll onto m entries) ↔ key ∈ keys m ∨ key ∈ keys entries := by
  simp only [mem_keys_iff, get?_writeAll hnodup]
  cases get? entries key <;> simp

/-- **Two ways of writing come to the same** if each entry makes the same of what is there. -/
theorem writeAll_eq_iff (hm : Sorted m) (hentries : Sorted entries) :
    writeAll onto m entries = writeAll onto' m entries ↔
      ∀ key value, get? entries key = some value →
        onto (get? m key) value = onto' (get? m key) value := by
  constructor
  · intro h key value hvalue
    have hsame := congrArg (get? · key) h
    simpa [get?_writeAll hentries.nodup, hvalue] using hsame
  · intro h
    refine (hm.writeAll onto entries).ext (hm.writeAll onto' entries) fun key => ?_
    rw [get?_writeAll hentries.nodup, get?_writeAll hentries.nodup]
    cases hvalue : get? entries key with
    | none => rfl
    | some value => exact congrArg some (h key value hvalue)

/-- Entries change nothing if they make of what is there what is there. -/
theorem writeAll_eq_self (hm : Sorted m) (hentries : Sorted entries)
    (h : ∀ key value, get? entries key = some value →
      ∃ there, get? m key = some there ∧ onto (some there) value = there) :
    writeAll onto m entries = m := by
  refine (hm.writeAll onto entries).ext hm fun key => ?_
  rw [get?_writeAll hentries.nodup]
  cases hvalue : get? entries key with
  | none => rfl
  | some value =>
    obtain ⟨there, hthere, hsame⟩ := h key value hvalue
    simp [hthere, hsame]

end Keyed

namespace Json

/-- The values whose objects list their fields in the order of the keys, each key once. -/
inductive Value.Ordered : Value → Prop where
  | null : Ordered .null
  | bool (value : Bool) : Ordered (.bool value)
  | number (value : Number) : Ordered (.number value)
  | string (value : String) : Ordered (.string value)
  | array (items : List Value) (members : ∀ v ∈ items, Ordered v) : Ordered (.array items)
  | object (fields : List (String × Value)) (sorted : Keyed.Sorted fields)
      (members : ∀ field ∈ fields, Ordered field.2) : Ordered (.object fields)

variable {v w : Value} {vs : List Value} {fs : List (String × Value)}
  {letters cs rest : List Char} {steps depth : Nat}

theorem ordered_object_iff :
    (Value.object fs).Ordered ↔ Keyed.Sorted fs ∧ ∀ field ∈ fs, field.2.Ordered := by
  constructor
  · intro h
    cases h with
    | object _ sorted members => exact ⟨sorted, members⟩
  · exact fun h => .object fs h.1 h.2

theorem Value.Ordered.sorted (h : (Value.object fs).Ordered) : Keyed.Sorted fs :=
  (ordered_object_iff.1 h).1

/-- What is under a key of an ordered object is ordered. -/
theorem Value.Ordered.get? {key : String} (h : (Value.object fs).Ordered)
    (hget : Keyed.get? fs key = some v) : v.Ordered :=
  (ordered_object_iff.1 h).2 _ (Keyed.mem_of_get? hget)

/-- Writing fields into an object leaves it ordered if each makes an ordered value of what is
there. -/
theorem ordered_writeAll {f g : List (String × Value)} {onto : Option Value → Value → Value}
    (hf : (Value.object f).Ordered) (hg : (Value.object g).Ordered)
    (honto : ∀ key v, Keyed.get? g key = some v → (onto (Keyed.get? f key) v).Ordered) :
    (Value.object (Keyed.writeAll onto f g)).Ordered := by
  have hwritten := hf.sorted.writeAll onto g
  refine .object _ hwritten fun field hfield => ?_
  have hget := Keyed.get?_of_mem hwritten.nodup hfield
  rw [Keyed.get?_writeAll hg.sorted.nodup] at hget
  cases hvalue : Keyed.get? g field.1 with
  | some v =>
    rw [hvalue] at hget
    exact Option.some.inj hget ▸ honto _ v hvalue
  | none =>
    rw [hvalue] at hget
    exact hf.get? hget

/-! ## Reading -/

theorem eq_of_word (h : word w letters cs = .ok (v, rest)) : v = w := by
  induction letters generalizing cs with
  | nil => exact (Prod.mk.inj (Except.ok.inj h)).1.symm
  | cons letter letters ih =>
    cases cs with
    | nil => cases h
    | cons c cs =>
      rw [word] at h
      split at h
      · exact ih h
      · cases h

/-- What so many steps of reading give: ordered values, alone and in lists and objects. -/
structure ReadsOrdered (steps : Nat) : Prop where
  value : ∀ {depth cs v rest}, Json.value steps depth cs = .ok (v, rest) → v.Ordered
  items : ∀ {depth cs vs rest}, Json.items steps depth cs = .ok (vs, rest) → ∀ v ∈ vs, v.Ordered
  fields : ∀ {depth cs fs rest}, Json.fields steps depth cs = .ok (fs, rest) →
    ∀ field ∈ fs, field.2.Ordered

theorem ReadsOrdered.value_succ (ih : ReadsOrdered steps)
    (h : Json.value (steps + 1) depth cs = .ok (v, rest)) : v.Ordered := by
  rw [Json.value] at h
  split at h
  · cases h
  next c cs =>
  split at h
  · exact eq_of_word h ▸ .null
  split at h
  · exact eq_of_word h ▸ .bool true
  split at h
  · exact eq_of_word h ▸ .bool false
  split at h
  · obtain ⟨⟨n, more⟩, -, heq⟩ := Except.map_eq_ok_iff.1 h
    exact (Prod.mk.inj heq).1 ▸ .number n
  split at h
  · obtain ⟨⟨n, more⟩, -, heq⟩ := Except.map_eq_ok_iff.1 h
    exact (Prod.mk.inj heq).1 ▸ .number n
  split at h
  · obtain ⟨⟨text, more⟩, -, heq⟩ := Except.map_eq_ok_iff.1 h
    exact (Prod.mk.inj heq).1 ▸ .string _
  split at h
  · split at h
    · cases h
    split at h
    · exact (Prod.mk.inj (Except.ok.inj h)).1 ▸ .array [] (fun v hv => absurd hv List.not_mem_nil)
    · cases h
    · obtain ⟨⟨vs, more⟩, hitems, heq⟩ := Except.map_eq_ok_iff.1 h
      exact (Prod.mk.inj heq).1 ▸ .array vs (ih.items hitems)
  split at h
  · split at h
    · cases h
    split at h
    · exact (Prod.mk.inj (Except.ok.inj h)).1 ▸
        .object [] Keyed.sorted_nil (fun field hfield => absurd hfield List.not_mem_nil)
    · cases h
    · obtain ⟨⟨fs, more⟩, hfields, heq⟩ := Except.map_eq_ok_iff.1 h
      exact (Prod.mk.inj heq).1 ▸ .object _ (Keyed.sorted_ofList fs) fun field hfield =>
        ih.fields hfields field (Keyed.mem_of_mem_ofList hfield)
    · cases h
  · cases h

theorem ReadsOrdered.items_succ (ih : ReadsOrdered steps)
    (h : Json.items (steps + 1) depth cs = .ok (vs, rest)) : ∀ v ∈ vs, v.Ordered := by
  rw [Json.items] at h
  split at h
  · cases h
  next v cs hvalue =>
  have hv := ih.value hvalue
  split at h
  · cases h
  · obtain ⟨rfl, -⟩ := Prod.mk.inj (Except.ok.inj h)
    exact fun w hw => List.mem_singleton.1 hw ▸ hv
  · split at h
    · cases h
    · cases h
    · obtain ⟨⟨more, behind⟩, hitems, heq⟩ := Except.map_eq_ok_iff.1 h
      obtain ⟨rfl, -⟩ := Prod.mk.inj heq
      exact List.forall_mem_cons.2 ⟨hv, ih.items hitems⟩
  · cases h

theorem ReadsOrdered.fields_succ (ih : ReadsOrdered steps)
    (h : Json.fields (steps + 1) depth cs = .ok (fs, rest)) : ∀ field ∈ fs, field.2.Ordered := by
  rw [Json.fields] at h
  split at h
  · cases h
  split at h
  · cases h
  · split at h
    · cases h
    next v cs hvalue =>
    have hv := ih.value hvalue
    dsimp only at h
    split at h
    · cases h
    · obtain ⟨rfl, -⟩ := Prod.mk.inj (Except.ok.inj h)
      exact fun field hfield => List.mem_singleton.1 hfield ▸ hv
    · split at h
      · cases h
      · obtain ⟨⟨more, behind⟩, hfields, heq⟩ := Except.map_eq_ok_iff.1 h
        obtain ⟨rfl, -⟩ := Prod.mk.inj heq
        exact List.forall_mem_cons.2 ⟨hv, ih.fields hfields⟩
      · cases h
      · cases h
    · cases h
  · cases h

/-- Every number of steps reads ordered values. -/
theorem readsOrdered (steps : Nat) : ReadsOrdered steps := by
  induction steps with
  | zero =>
    refine ⟨fun h => ?_, fun h => ?_, fun h => ?_⟩
    · cases h
    · cases h
    · cases h
  | succ steps ih => exact ⟨ih.value_succ, ih.items_succ, ih.fields_succ⟩

/-- **What is read from a text is ordered.** -/
theorem ordered_of_decode (h : decode cs = .ok v) : v.Ordered := by
  rw [decode, decodeWithin] at h
  split at h
  · next hwhole =>
    obtain rfl := Except.ok.inj h
    rw [whole?] at hwhole
    split at hwhole
    · cases hwhole
    · next hvalue =>
      split at hwhole
      · exact Except.ok.inj hwhole ▸ (readsOrdered _).value hvalue
      · cases hwhole
  · cases h

end Json

end Trellis
