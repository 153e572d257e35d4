import Trellis.Json.Merge
import Trellis.Proofs.Json.Order
/-!
# Json — what a merge keeps

Objects are merged field by field, each field written as what it makes of the value under
its key (`applyFields_eq_writeAll`). So what a deep merge has at the end of a path of keys
is known from what the two values have there (`at?_apply_of_some`, `at?_apply_of_blocked`,
`at?_apply_of_free`), and merging the same data once more changes nothing (`apply_again`).
-/

namespace Trellis

namespace Json

/-- That a value is an object. -/
def Value.IsObject (v : Value) : Prop :=
  ∃ fields, v = .object fields

theorem Value.not_isObject_null : ¬ Value.null.IsObject := by
  rintro ⟨fields, h⟩
  cases h

/-- The value at the end of a path of keys, through objects alone. -/
def Value.at? (v : Value) : List String → Option Value
  | [] => some v
  | key :: path =>
    match v with
    | .object fields => (Keyed.get? fields key).bind fun inner => inner.at? path
    | _ => none

variable {a b u v : Value} {f g : List (String × Value)} {key : String}
  {path first second : List String} {merge : Merge}

/-! ## Paths of keys -/

@[simp] theorem Value.at?_nil (v : Value) : v.at? [] = some v := by
  cases v <;> rfl

@[simp] theorem Value.at?_object_cons (f : List (String × Value)) (key : String)
    (path : List String) :
    (Value.object f).at? (key :: path) = (Keyed.get? f key).bind (·.at? path) := rfl

theorem Value.at?_cons_of_not_isObject (h : ¬ v.IsObject) (key : String) (path : List String) :
    v.at? (key :: path) = none := by
  cases v with
  | object fields => exact absurd ⟨fields, rfl⟩ h
  | _ => rfl

/-- A path made of two leads where the second leads from the end of the first. -/
theorem Value.at?_append (v : Value) (first second : List String) :
    v.at? (first ++ second) = (v.at? first).bind (·.at? second) := by
  induction first generalizing v with
  | nil => simp
  | cons key first ih =>
    by_cases h : v.IsObject
    · obtain ⟨f, rfl⟩ := h
      simp only [List.cons_append, Value.at?_object_cons, Option.bind_assoc, ih]
    · rw [List.cons_append, Value.at?_cons_of_not_isObject h, Value.at?_cons_of_not_isObject h,
        Option.bind_none]

/-- What is inside an ordered value is ordered. -/
theorem Value.Ordered.at? (hv : v.Ordered) (h : v.at? path = some u) : u.Ordered := by
  induction path generalizing v with
  | nil =>
    obtain rfl := Option.some.inj ((Value.at?_nil v).symm.trans h)
    exact hv
  | cons key path ih =>
    cases v with
    | object f =>
      rw [Value.at?_object_cons, Option.bind_eq_some_iff] at h
      obtain ⟨w, hget, hw⟩ := h
      exact ih (hv.get? hget) hw
    | _ => simp [Value.at?] at h

/-- That a value has something else than an object on the way to the end of a path. -/
def Value.Blocks (v : Value) (path : List String) : Prop :=
  ∃ first key second inner, path = first ++ key :: second ∧ v.at? first = some inner ∧
    ¬ inner.IsObject

/-- The way through an object is blocked below the field that it leads to. -/
theorem Value.blocks_object_cons_iff :
    (Value.object f).Blocks (key :: path) ↔ ∃ v, Keyed.get? f key = some v ∧ v.Blocks path := by
  constructor
  · rintro ⟨first, next, second, inner, hpath, hat, hinner⟩
    cases first with
    | nil =>
      rw [Value.at?_nil] at hat
      exact absurd ⟨f, (Option.some.inj hat).symm⟩ hinner
    | cons k first =>
      obtain ⟨rfl, rfl⟩ := List.cons.inj hpath
      rw [Value.at?_object_cons, Option.bind_eq_some_iff] at hat
      obtain ⟨v, hget, hat⟩ := hat
      exact ⟨v, hget, first, next, second, inner, rfl, hat, hinner⟩
  · rintro ⟨v, hget, first, next, second, inner, rfl, hat, hinner⟩
    refine ⟨key :: first, next, second, inner, rfl, ?_, hinner⟩
    rw [Value.at?_object_cons, hget, Option.bind_some, hat]

namespace Merge

/-! ## Objects, key by key -/

/-- What incoming data make of the value in their place. -/
def onto (merge : Merge) (there : Option Value) (incoming : Value) : Value :=
  match merge, there with
  | deep, some slot => apply deep slot incoming
  | _, _ => incoming

@[simp] theorem onto_deep_some (slot incoming : Value) :
    onto deep (some slot) incoming = apply deep slot incoming := rfl

@[simp] theorem onto_none (merge : Merge) (incoming : Value) :
    merge.onto none incoming = incoming := by
  cases merge <;> rfl

@[simp] theorem onto_shallow (there : Option Value) (incoming : Value) :
    onto shallow there incoming = incoming := by
  cases there <;> rfl

/-- **Fields are merged in** by writing each as what it makes of the value under its key. -/
theorem applyFields_eq_writeAll (merge : Merge) (f : Fields) (g : List (String × Value)) :
    applyFields merge f g = Keyed.writeAll merge.onto f g := by
  induction g generalizing f with
  | nil => rw [applyFields, Keyed.writeAll, List.foldl_nil]
  | cons field g ih =>
    obtain ⟨key, v⟩ := field
    have hfirst : applyFields merge f ((key, v) :: g) =
        applyFields merge (Keyed.insert f key (merge.onto (Keyed.get? f key) v)) g := by
      cases merge <;> cases hthere : Keyed.get? f key <;> simp [applyFields, onto, hthere]
    rw [hfirst, ih, Keyed.writeAll, Keyed.writeAll, List.foldl_cons]

@[simp] theorem apply_object (merge : Merge) (f g : List (String × Value)) :
    merge.apply (.object f) (.object g) = .object (Keyed.writeAll merge.onto f g) := by
  rw [apply, applyFields_eq_writeAll]

/-- Data that are no object replace what is there. -/
theorem apply_of_not_isObject (h : ¬ b.IsObject) (merge : Merge) (a : Value) :
    merge.apply a b = b := by
  cases b with
  | object g => exact absurd ⟨g, rfl⟩ h
  | _ => rw [apply]; simp

/-- What is no object is replaced. -/
theorem apply_to_not_isObject (h : ¬ a.IsObject) (merge : Merge) (b : Value) :
    merge.apply a b = b := by
  by_cases hb : b.IsObject
  · obtain ⟨g, rfl⟩ := hb
    cases a with
    | object f => exact absurd ⟨f, rfl⟩ h
    | _ => rw [apply]; simp
  · exact apply_of_not_isObject hb merge a

/-- **Incoming data replace the value** if not both are objects. -/
theorem apply_eq_right (h : ¬ (a.IsObject ∧ b.IsObject)) (merge : Merge) :
    merge.apply a b = b := by
  by_cases ha : a.IsObject
  · exact apply_of_not_isObject (fun hb => h ⟨ha, hb⟩) merge a
  · exact apply_to_not_isObject ha merge b

/-- **A shallow merge of two objects is the incoming one** exactly if that one has all keys of
the other. -/
theorem shallow_apply_eq_right_iff (ha : a.Ordered) (hb : b.Ordered) :
    shallow.apply a b = b ↔ ∀ f g, a = .object f → b = .object g →
      ∀ key ∈ Keyed.keys f, key ∈ Keyed.keys g := by
  by_cases hboth : a.IsObject ∧ b.IsObject
  · obtain ⟨⟨f, rfl⟩, g, rfl⟩ := hboth
    obtain ⟨hf, -⟩ := ordered_object_iff.1 ha
    obtain ⟨hg, -⟩ := ordered_object_iff.1 hb
    rw [apply_object, Value.object.injEq]
    constructor
    · rintro h _ _ ⟨rfl⟩ ⟨rfl⟩ key hkey
      rw [← h]
      exact (Keyed.mem_keys_writeAll_iff hb.sorted.nodup shallow.onto f key).2 (.inl hkey)
    · intro h
      refine (ha.sorted.writeAll shallow.onto g).ext hb.sorted fun key => ?_
      rw [Keyed.get?_writeAll hb.sorted.nodup]
      cases hthere : Keyed.get? g key with
      | some v => simp
      | none =>
        rw [Option.eq_none_iff_forall_ne_some]
        intro v hv
        obtain ⟨w, hw⟩ := Keyed.mem_keys_iff.1 (h f g rfl rfl key (Keyed.mem_keys_iff.2 ⟨v, hv⟩))
        rw [hthere] at hw
        cases hw
  · refine iff_of_true (apply_eq_right hboth shallow) ?_
    rintro f g rfl rfl
    exact absurd ⟨⟨f, rfl⟩, g, rfl⟩ hboth

/-! ## Deep merges, path by path -/

/-- **Where the incoming data have a value**, a deep merge has what it makes of the one
there. -/
theorem at?_apply_of_some (hb : b.Ordered) (h : b.at? path = some v) (a : Value) :
    (deep.apply a b).at? path = some (deep.onto (a.at? path) v) := by
  induction path generalizing a b with
  | nil =>
    obtain rfl := Option.some.inj ((Value.at?_nil b).symm.trans h)
    simp
  | cons key path ih =>
    by_cases ha : a.IsObject
    · obtain ⟨f, rfl⟩ := ha
      cases b with
      | object g =>
        rw [Value.at?_object_cons, Option.bind_eq_some_iff] at h
        obtain ⟨w, hget, hw⟩ := h
        simp only [apply_object, Value.at?_object_cons, Keyed.get?_writeAll hb.sorted.nodup, hget,
          Option.bind_some]
        cases hthere : Keyed.get? f key with
        | none => simpa using hw
        | some slot => exact ih (hb.get? hget) hw slot
      | _ => simp [Value.at?] at h
    · rw [apply_to_not_isObject ha, Value.at?_cons_of_not_isObject ha, h, onto_none]

/-- **Where they have something else than an object on the way**, it has nothing. -/
theorem at?_apply_of_blocked (hb : b.Ordered) (h : b.Blocks path) (a : Value) :
    (deep.apply a b).at? path = none := by
  obtain ⟨first, key, second, inner, rfl, hat, hinner⟩ := h
  have hreplaced : deep.onto (a.at? first) inner = inner := by
    cases a.at? first with
    | none => rfl
    | some slot => exact apply_of_not_isObject hinner deep slot
  rw [Value.at?_append, at?_apply_of_some hb hat, hreplaced, Option.bind_some,
    Value.at?_cons_of_not_isObject hinner]

/-- **Where they have nothing, and nothing in the way**, it has what was there. -/
theorem at?_apply_of_free (hb : b.Ordered) (h : b.at? path = none) (hfree : ¬ b.Blocks path)
    (a : Value) : (deep.apply a b).at? path = a.at? path := by
  induction path generalizing a b with
  | nil => simp at h
  | cons key path ih =>
    have hobject : b.IsObject := Classical.byContradiction fun hnot =>
      hfree ⟨[], key, path, b, rfl, Value.at?_nil b, hnot⟩
    obtain ⟨g, rfl⟩ := hobject
    by_cases ha : a.IsObject
    · obtain ⟨f, rfl⟩ := ha
      simp only [apply_object, Value.at?_object_cons, Keyed.get?_writeAll hb.sorted.nodup]
      cases hget : Keyed.get? g key with
      | none => rfl
      | some w =>
        have hnone : w.at? path = none := by simpa [hget] using h
        have hopen : ¬ w.Blocks path := fun hblocks =>
          hfree (Value.blocks_object_cons_iff.2 ⟨w, hget, hblocks⟩)
        cases Keyed.get? f key with
        | none => simpa using hnone
        | some slot => exact ih (hb.get? hget) hnone hopen slot
    · rw [apply_to_not_isObject ha, h, Value.at?_cons_of_not_isObject ha]

/-! ## Merging once more -/

/-- **Merging the same data once more changes nothing.** -/
theorem apply_again (merge : Merge) (ha : a.Ordered) (hb : b.Ordered) :
    merge.apply (merge.apply a b) b = merge.apply a b := by
  induction hb generalizing a with
  | object g sorted members ih =>
    -- under each key what the data made of the value there is left as it is
    have honto (there : Option Value) (hthere : ∀ slot ∈ there, slot.Ordered) {key : String}
        {v : Value} (hget : Keyed.get? g key = some v) :
        merge.onto (some (merge.onto there v)) v = merge.onto there v := by
      have hv := Keyed.mem_of_get? hget
      cases merge with
      | shallow => simp
      | deep =>
        cases there with
        | some slot => exact ih _ hv (hthere slot rfl)
        | none =>
          have hself := ih _ hv .null
          rwa [apply_to_not_isObject Value.not_isObject_null] at hself
    by_cases hobject : a.IsObject
    · obtain ⟨f, rfl⟩ := hobject
      rw [apply_object, apply_object]
      refine congrArg Value.object
        (Keyed.writeAll_eq_self (ha.sorted.writeAll merge.onto g) sorted ?_)
      intro key v hget
      refine ⟨merge.onto (Keyed.get? f key) v, ?_, honto _ (fun slot hslot => ha.get? hslot) hget⟩
      rw [Keyed.get?_writeAll sorted.nodup, hget]
    · rw [apply_to_not_isObject hobject, apply_object]
      refine congrArg Value.object (Keyed.writeAll_eq_self sorted sorted fun key v hget => ?_)
      have hself := honto none (fun slot hslot => nomatch hslot) hget
      exact ⟨v, hget, by simpa using hself⟩
  | _ => simp [apply]

/-! ## What a merge gives -/

/-- **Merging ordered values gives one.** -/
theorem ordered_apply (merge : Merge) (ha : a.Ordered) (hb : b.Ordered) :
    (merge.apply a b).Ordered := by
  induction hb generalizing a with
  | object g sorted members ih =>
    by_cases hobject : a.IsObject
    · obtain ⟨f, rfl⟩ := hobject
      rw [apply_object]
      refine ordered_writeAll ha (.object g sorted members) fun key v hvalue => ?_
      have hv := Keyed.mem_of_get? hvalue
      cases hthere : Keyed.get? f key with
      | none => simpa using members _ hv
      | some slot =>
        cases merge with
        | shallow => simpa using members _ hv
        | deep => exact ih _ hv (ha.get? hthere)
    · rw [apply_to_not_isObject hobject]
      exact .object g sorted members
  | null => simpa [apply] using Value.Ordered.null
  | bool value => simpa [apply] using Value.Ordered.bool value
  | number value => simpa [apply] using Value.Ordered.number value
  | string value => simpa [apply] using Value.Ordered.string value
  | array items members => simpa [apply] using Value.Ordered.array items members

end Merge

/-- **What a deep merge has at the end of a path of keys.** -/
structure MergedAt (a b merged : Value) (path : List String) : Prop where
  /-- Where both values have objects, an object with the keys of both. -/
  united : ∀ {f g}, a.at? path = some (.object f) → b.at? path = some (.object g) →
    ∃ h, merged.at? path = some (.object h) ∧
      ∀ key, key ∈ Keyed.keys h ↔ key ∈ Keyed.keys f ∨ key ∈ Keyed.keys g
  /-- Where else the incoming data have a value, that value. -/
  taken : ∀ {v}, b.at? path = some v →
    ¬ ((∃ u, a.at? path = some u ∧ u.IsObject) ∧ v.IsObject) → merged.at? path = some v
  /-- Nothing behind what they have that is no object. -/
  dropped : b.Blocks path → merged.at? path = none
  /-- And everywhere else what was there. -/
  kept : b.at? path = none → ¬ b.Blocks path → merged.at? path = a.at? path

/-- **What merging gives** of a value and incoming data. -/
structure MergeLaws (a b : Value) : Prop where
  /-- A deep merge has at the end of each path what the two have there. -/
  deep : ∀ path, MergedAt a b (Merge.deep.apply a b) path
  /-- A shallow merge of two objects has the whole value of the incoming one under each of its
  keys, and what was there under the others. -/
  shallow : ∀ {f g}, a = .object f → b = .object g →
    ∃ h, Merge.shallow.apply a b = .object h ∧
      ∀ key, Keyed.get? h key = (Keyed.get? g key).or (Keyed.get? f key)
  /-- Incoming data replace the value if not both are objects. -/
  replaced : ¬ (a.IsObject ∧ b.IsObject) → ∀ merge : Merge, merge.apply a b = b
  /-- Merging them once more changes nothing. -/
  again : ∀ merge : Merge, merge.apply (merge.apply a b) b = merge.apply a b
  /-- What comes out is ordered as well. -/
  ordered : ∀ merge : Merge, (merge.apply a b).Ordered

namespace Merge

theorem mergedAt_apply (hb : b.Ordered) (a : Value) (path : List String) :
    MergedAt a b (deep.apply a b) path := by
  refine ⟨?_, ?_, ?_, ?_⟩
  · intro f g hf hg
    refine ⟨Keyed.writeAll deep.onto f g, ?_, ?_⟩
    · rw [at?_apply_of_some hb hg, hf, onto_deep_some, apply_object]
    · exact Keyed.mem_keys_writeAll_iff (hb.at? hg).sorted.nodup deep.onto f
  · intro v hv hnot
    rw [at?_apply_of_some hb hv]
    cases hthere : a.at? path with
    | none => exact congrArg some (onto_none deep v)
    | some slot =>
      have hboth : ¬ (slot.IsObject ∧ v.IsObject) := fun h => hnot ⟨⟨slot, hthere, h.1⟩, h.2⟩
      exact congrArg some (apply_eq_right hboth deep)
  · exact fun h => at?_apply_of_blocked hb h a
  · exact fun h hfree => at?_apply_of_free hb h hfree a

/-- **Merging loses nothing that it should keep.** -/
theorem merge_laws (ha : a.Ordered) (hb : b.Ordered) : MergeLaws a b := by
  refine ⟨mergedAt_apply hb a, ?_, apply_eq_right, fun merge => apply_again merge ha hb,
    fun merge => ordered_apply merge ha hb⟩
  rintro f g rfl rfl
  refine ⟨Keyed.writeAll shallow.onto f g, apply_object _ f g, fun key => ?_⟩
  rw [Keyed.get?_writeAll hb.sorted.nodup]
  cases Keyed.get? g key <;> simp

/-- A profile. -/
def profile : Value :=
  .object [("tags", .object [("new", .bool true)]),
    ("user", .object [("name", .string "Ada"), ("role", .string "admin")])]

/-- Changes to it. -/
def changes : Value :=
  .object [("tags", .array []), ("user", .object [("name", .string "Bob")])]

theorem merge_laws_profile :
    profile.Ordered ∧ changes.Ordered ∧
      (deep.apply profile changes).at? ["user", "role"] = some (.string "admin") ∧
      (deep.apply profile changes).at? ["tags", "new"] = none := by
  have hnone {P : String × Value → Prop} : ∀ field ∈ [], P field := List.forall_mem_nil P
  have hprofile : profile.Ordered := by
    simp only [profile, ordered_object_iff, List.forall_mem_cons]
    exact ⟨by decide, ⟨by decide, .bool true, hnone⟩,
      ⟨by decide, .string _, .string _, hnone⟩, hnone⟩
  have hchanges : changes.Ordered := by
    simp only [changes, ordered_object_iff, List.forall_mem_cons]
    exact ⟨by decide, .array [] (List.forall_mem_nil _), ⟨by decide, .string _, hnone⟩, hnone⟩
  have hlaws := merge_laws hprofile hchanges
  have hfree : ¬ changes.Blocks ["user", "role"] := by
    simp [changes, Value.blocks_object_cons_iff, Keyed.get?]
  refine ⟨hprofile, hchanges, ((hlaws.deep ["user", "role"]).kept rfl hfree).trans rfl, ?_⟩
  have harray : ¬ (Value.array []).IsObject := by
    rintro ⟨fields, h⟩
    cases h
  exact (hlaws.deep ["tags", "new"]).dropped ⟨["tags"], "new", [], .array [], rfl, rfl, harray⟩

end Merge

end Json

end Trellis
