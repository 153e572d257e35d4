import Trellis.Proofs.Json.Reading
/-!
# Json — values read back

The compact text of a value, escaped for a script element, is a text of the
value (`reads_scripted`) and so is read back as the value (`decodeWithin_script`):
at any depth of lists and objects that the reader allows, and for all values whose
numbers are whole. A reader that allows the nesting of the value meets no limit.
-/

namespace Trellis

namespace Keyed

universe u

variable {α : Type u} {entries m : Keyed α} {key : String} {value : α}

/-- An entry behind all others is put at the end. -/
theorem insert_of_forall_lt (h : ∀ entry ∈ m, entry.1 < key) :
    insert m key value = m ++ [(key, value)] := by
  induction m with
  | nil => rfl
  | cons entry m ih =>
    obtain ⟨k, v⟩ := entry
    have hlt : k < key := h (k, v) List.mem_cons_self
    have hne : k ≠ key := fun e => String.lt_irrefl key (e ▸ hlt)
    have hnot : ¬ key < k := String.lt_asymm hlt
    have hmore := ih fun entry hentry => h entry (List.mem_cons_of_mem (k, v) hentry)
    rw [insert, if_neg hne, if_neg hnot, hmore]
    rfl

/-- **Entries in the order of their keys make up the map of themselves.** -/
theorem ofList_of_pairwise (h : (entries.map Prod.fst).Pairwise (· < ·)) :
    ofList entries = entries := by
  -- the entries put in so far stay before all that are still to come
  have hfold : ∀ (later done : List (String × α)), ((done ++ later).map Prod.fst).Pairwise (· < ·) →
      later.foldl (fun m entry => insert m entry.1 entry.2) done = done ++ later := by
    intro later
    induction later with
    | nil =>
      intro done _
      exact (List.append_nil done).symm
    | cons entry later ih =>
      intro done hdone
      have hbehind : ∀ earlier ∈ done, earlier.1 < entry.1 := by
        intro earlier hearlier
        rw [List.map_append, List.pairwise_append] at hdone
        exact hdone.2.2 _ (List.mem_map_of_mem hearlier) _ (by simp)
      rw [List.foldl_cons, insert_of_forall_lt hbehind]
      have hnext := ih (done ++ [(entry.1, entry.2)])
      rw [List.append_assoc] at hnext
      exact hnext hdone
  exact hfold entries [] h

end Keyed

namespace Json

/-- The values that are made of whole numbers: integers have at most the
sixty-four bits of a number, and objects list their fields by key. -/
inductive Value.Whole : Value → Prop where
  | null : Whole .null
  | bool (value : Bool) : Whole (.bool value)
  | int (n : Int) (low : -(greatestNegated : Int) ≤ n) (high : n ≤ greatestWhole) :
      Whole (.number (.int n))
  | string (text : String) : Whole (.string text)
  | array (items : List Value) (members : ∀ v ∈ items, Whole v) : Whole (.array items)
  | object (fields : List (String × Value)) (ordered : (fields.map Prod.fst).Pairwise (· < ·))
      (members : ∀ field ∈ fields, Whole field.2) : Whole (.object fields)

mutual

/-- How deep lists and objects nest in a value. -/
def Value.nesting : Value → Nat
  | .array items => Value.nestingItems items + 1
  | .object fields => Value.nestingFields fields + 1
  | _ => 0

/-- The deepest nesting in the items of a list. -/
def Value.nestingItems : List Value → Nat
  | [] => 0
  | v :: rest => max v.nesting (Value.nestingItems rest)

/-- The deepest nesting in the fields of an object. -/
def Value.nestingFields : List (String × Value) → Nat
  | [] => 0
  | (_, v) :: rest => max v.nesting (Value.nestingFields rest)

end

variable {v : Value} {vs : List Value} {fs : List (String × Value)} {depth : Nat}

/-- The data of a value inside a script element. -/
def Value.scripted (v : Value) : List Char :=
  Escape.script v.written

/-! ## What is written for a script element -/

/-- A character that means nothing to a script element stays in front. -/
theorem script_cons {c : Char} (h : Escape.scriptChar c = [c]) (cs : List Char) :
    Escape.script (c :: cs) = c :: Escape.script cs := by
  unfold Escape.script
  rw [List.flatMap_cons, h]
  rfl

theorem script_quoted (cs : List Char) :
    Escape.script (quoted cs) = '"' :: (Escape.script (escapedText cs) ++ ['"']) := by
  have hquote : Escape.script ['"'] = ['"'] := by decide
  unfold quoted
  rw [List.cons_append, script_cons (by decide), script_append, hquote]

theorem scripted_array (items : List Value) :
    (Value.array items).scripted = '[' :: (Escape.script (Value.writtenItems items) ++ [']']) := by
  have hend : Escape.script [']'] = [']'] := by decide
  rw [Value.scripted, Value.written, List.cons_append, script_cons (by decide), script_append, hend]

theorem scripted_object (fields : List (String × Value)) :
    (Value.object fields).scripted =
      '{' :: (Escape.script (Value.writtenFields fields) ++ ['}']) := by
  have hend : Escape.script ['}'] = ['}'] := by decide
  rw [Value.scripted, Value.written, List.cons_append, script_cons (by decide), script_append, hend]

theorem script_writtenItems (vs : List Value) :
    Escape.script (Value.writtenItems vs) = separated (vs.map Value.scripted) := by
  induction vs with
  | nil => rfl
  | cons v vs ih =>
    cases vs with
    | nil => rw [Value.writtenItems, List.map_singleton, separated_singleton, Value.scripted]
    | cons w vs =>
      rw [Value.writtenItems, script_append, script_cons (by decide), ih]
      simp only [List.map_cons, separated_cons_cons, Value.scripted]

/-- A field is written as its key in quotes, a colon and its value. -/
def entryOf (field : String × Value) : Entry where
  before := []
  spelling := Escape.script (escapedText field.1.toList)
  key := field.1.toList
  behind := []
  text := field.2.scripted
  value := field.2

theorem written_entryOf (key : String) (v : Value) :
    (entryOf (key, v)).written = Escape.script (quoted key.toList ++ ':' :: v.written) := by
  rw [script_append, script_quoted, script_cons (by decide)]
  simp [Entry.written, entryOf, Value.scripted]

@[simp] theorem field_entryOf (field : String × Value) : (entryOf field).field = field := by
  simp [Entry.field, entryOf]

theorem script_writtenFields (fs : List (String × Value)) :
    Escape.script (Value.writtenFields fs) =
      separated (fs.map fun field => (entryOf field).written) := by
  induction fs with
  | nil => rfl
  | cons field fs ih =>
    obtain ⟨key, v⟩ := field
    cases fs with
    | nil => rw [Value.writtenFields, ← written_entryOf, List.map_singleton, separated_singleton]
    | cons next fs =>
      rw [Value.writtenFields, script_append, script_cons (by decide), ih, ← written_entryOf]
      simp only [List.map_cons, separated_cons_cons]

/-! ## Nesting -/

theorem nesting_le_of_mem (h : v ∈ vs) : v.nesting ≤ Value.nestingItems vs := by
  induction vs with
  | nil => cases h
  | cons w vs ih =>
    rw [Value.nestingItems]
    rcases List.mem_cons.1 h with rfl | h
    · exact Nat.le_max_left _ _
    · exact Nat.le_trans (ih h) (Nat.le_max_right _ _)

theorem nesting_le_of_mem_fields {field : String × Value} (h : field ∈ fs) :
    field.2.nesting ≤ Value.nestingFields fs := by
  induction fs with
  | nil => cases h
  | cons entry fs ih =>
    obtain ⟨key, w⟩ := entry
    rw [Value.nestingFields]
    rcases List.mem_cons.1 h with rfl | h
    · exact Nat.le_max_left _ _
    · exact Nat.le_trans (ih h) (Nat.le_max_right _ _)

/-! ## Values -/

/-- **What is written of a value of whole numbers is a text of it.** -/
theorem reads_scripted (h : v.Whole) (hdepth : v.nesting ≤ depth) : Reads depth v.scripted v := by
  induction h generalizing depth with
  | null => exact reads_null depth
  | bool b =>
    cases b with
    | true => exact reads_true depth
    | false => exact reads_false depth
  | int n hlow hhigh =>
    have htext : (Value.number (.int n)).scripted = intText n := script_intText n
    have hread := value_intText hlow hhigh ends_nil 0 0
    rw [List.append_nil] at hread
    rw [htext]
    exact reads_of_integral (integral_intText n) hread depth
  | string text =>
    have htext : (Value.string text).scripted =
        '"' :: (Escape.script (escapedText text.toList) ++ ['"']) := script_quoted text.toList
    have hreads := reads_string (stringRest_script text.toList) depth
    rwa [String.ofList_toList, ← htext] at hreads
  | array items hwhole ih =>
    rw [Value.nesting] at hdepth
    obtain ⟨depth, rfl⟩ := Nat.exists_eq_succ_of_ne_zero (by omega : depth ≠ 0)
    -- the list takes one level, and its items have the rest
    have hparts : ∀ part ∈ items.map fun w => (w.scripted, w), Reads depth part.1 part.2 := by
      intro part hpart
      obtain ⟨w, hw, rfl⟩ := List.mem_map.1 hpart
      have hnests := nesting_le_of_mem hw
      exact ih w hw (by omega)
    have hreads := reads_array spaces_nil hparts
    rw [List.map_map, List.map_map] at hreads
    rw [scripted_array, script_writtenItems]
    simpa [Function.comp_def] using hreads
  | object fs hordered hwhole ih =>
    rw [Value.nesting] at hdepth
    obtain ⟨depth, rfl⟩ := Nat.exists_eq_succ_of_ne_zero (by omega : depth ≠ 0)
    have hentries : ∀ e ∈ fs.map entryOf, e.Reads depth := by
      intro e he
      obtain ⟨field, hfield, rfl⟩ := List.mem_map.1 he
      have hnests := nesting_le_of_mem_fields hfield
      exact ⟨spaces_nil, stringRest_script field.1.toList, spaces_nil, ih field hfield (by omega)⟩
    have hreads := reads_object spaces_nil hentries
    rw [List.map_map, List.map_map] at hreads
    rw [scripted_object, script_writtenFields]
    -- the fields came in the order of their keys, and so they stay
    have hmap := Keyed.ofList_of_pairwise hordered
    simpa [Function.comp_def, hmap] using hreads

/-- **The data of a script element decode to the value that was put in**, by any
reader that allows its nesting. -/
theorem decodeWithin_script (h : v.Whole) (hdepth : v.nesting ≤ depth) :
    decodeWithin depth (Escape.script v.written) = .ok v :=
  (reads_scripted h hdepth).decodeWithin

/-- A string of a script decodes to its characters. -/
theorem decode_script_quoted (cs : List Char) :
    decode (Escape.script (quoted cs)) = .ok (.string (String.ofList cs)) := by
  have hdecode : decode (Escape.script (Value.string (String.ofList cs)).written) =
      .ok (.string (String.ofList cs)) :=
    decodeWithin_script (.string (String.ofList cs)) (Nat.zero_le greatestDepth)
  rwa [Value.written, String.toList_ofList] at hdecode

end Json

end Trellis
