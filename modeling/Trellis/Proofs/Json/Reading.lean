import Trellis.Proofs.Json.Numbers
import Trellis.Proofs.Json.Strings
import Trellis.Proofs.Text.Blank
/-!
# Json — texts of values

A text is a text of a value if the reader takes it for that value wherever it
stands, in front of whatever does not go on with it (`Reads`). Such texts are put
together as data texts are: with spaces around them, in lists and in objects. The
reader's steps are counted by the length of the text, its limit by the lists and
objects around a value.
-/

namespace Trellis

namespace Json

variable {cs text before after gap rest more : List Char} {c : Char} {v : Value}
  {steps depth : Nat}

/-! ## Spaces -/

/-- That characters may stand between tokens. -/
def Spaces (cs : List Char) : Prop :=
  ∀ c ∈ cs, isSpace c = true

theorem spaces_nil : Spaces [] := by
  intro c hc
  cases hc

theorem skipSpace_append (h : Spaces before) (cs : List Char) :
    skipSpace (before ++ cs) = skipSpace cs :=
  List.dropWhile_append_of_pos h

theorem skipSpace_skipSpace (cs : List Char) : skipSpace (skipSpace cs) = skipSpace cs := by
  induction cs with
  | nil => rfl
  | cons c cs ih =>
    by_cases h : isSpace c = true
    · rwa [show skipSpace (c :: cs) = skipSpace cs from List.dropWhile_cons_of_pos h]
    · rw [skipSpace_cons (Bool.eq_false_iff.2 h), skipSpace_cons (Bool.eq_false_iff.2 h)]

/-- What begins with something else than spaces does so in front of more. -/
theorem skipSpace_append_of_eq (h : skipSpace cs = c :: more) (rest : List Char) :
    skipSpace (cs ++ rest) = c :: (more ++ rest) := by
  unfold skipSpace at h ⊢
  rw [List.dropWhile_append, h]
  rfl

/-- Spaces do not go on with a number. -/
theorem Spaces.ends (h : Spaces after) (hrest : Ends rest) : Ends (after ++ rest) := by
  cases after with
  | nil => exact hrest
  | cons c after =>
    refine ends_cons ?_ _
    have hspace := h c List.mem_cons_self
    simp only [isSpace, Bool.or_eq_true, beq_iff_eq] at hspace
    rcases hspace with ((rfl | rfl) | rfl) | rfl <;> decide

/-- A value is read behind the spaces in front of it. -/
theorem value_skipSpace (steps depth : Nat) (cs : List Char) :
    value (steps + 1) depth (skipSpace cs) = value (steps + 1) depth cs := by
  simp only [value, skipSpace_skipSpace]

theorem items_skipSpace (steps depth : Nat) (cs : List Char) :
    items (steps + 2) depth (skipSpace cs) = items (steps + 2) depth cs := by
  simp only [items, value_skipSpace]

/-! ## Texts -/

/-- What a value's text starts with: no space, and no end of a list. -/
def Leads (c : Char) : Prop :=
  isSpace c = false ∧ c ≠ ']'

instance : DecidablePred Leads :=
  fun c => inferInstanceAs (Decidable (isSpace c = false ∧ c ≠ ']'))

/-- That a text starts as values do, behind spaces. -/
def Led (cs : List Char) : Prop :=
  ∃ c more, skipSpace cs = c :: more ∧ Leads c

/-- **That a text is a text of a value**: it is read as the value in front of any
text that does not go on with it, up to spaces between the two. -/
structure Reads (depth : Nat) (cs : List Char) (v : Value) : Prop where
  /-- The text starts as values do. -/
  led : Led cs
  /-- The text is read as the value. -/
  read : ∀ ⦃steps rest⦄, 2 * cs.length ≤ steps → Ends rest →
    ∃ behind, value steps depth (cs ++ rest) = .ok (v, behind) ∧
      skipSpace behind = skipSpace rest

theorem Led.append (h : Led cs) (rest : List Char) : Led (cs ++ rest) := by
  obtain ⟨c, more, heq, hleads⟩ := h
  exact ⟨c, more ++ rest, skipSpace_append_of_eq heq rest, hleads⟩

theorem Led.length_pos (h : Led cs) : 0 < cs.length := by
  obtain ⟨c, more, heq, -⟩ := h
  refine List.length_pos_iff.2 fun hnil => ?_
  rw [hnil] at heq
  cases heq

/-- A text without spaces in front is read with one step less behind its first
character. -/
theorem reads_cons (hleads : Leads c) (h : ∀ ⦃steps rest⦄, 2 * more.length + 1 ≤ steps →
    Ends rest → value (steps + 1) depth (c :: (more ++ rest)) = .ok (v, rest)) :
    Reads depth (c :: more) v := by
  refine ⟨⟨c, more, skipSpace_cons hleads.1 more, hleads⟩, fun steps rest hsteps hrest => ?_⟩
  rw [List.length_cons] at hsteps
  obtain ⟨steps, rfl⟩ := Nat.exists_eq_succ_of_ne_zero (by omega : steps ≠ 0)
  exact ⟨rest, h (by omega) hrest, rfl⟩

/-- **Spaces around a text change nothing.** -/
theorem Reads.padded (h : Reads depth cs v) (hbefore : Spaces before) (hafter : Spaces after) :
    Reads depth (before ++ (cs ++ after)) v := by
  refine ⟨?_, fun steps rest hsteps hrest => ?_⟩
  · obtain ⟨c, more, heq, hleads⟩ := h.led.append after
    exact ⟨c, more, (skipSpace_append hbefore _).trans heq, hleads⟩
  · have hpos := h.led.length_pos
    rw [List.length_append, List.length_append] at hsteps
    obtain ⟨steps, rfl⟩ := Nat.exists_eq_succ_of_ne_zero (by omega : steps ≠ 0)
    obtain ⟨behind, hread, hbehind⟩ := h.read (by omega : 2 * cs.length ≤ steps + 1)
      (hafter.ends hrest)
    refine ⟨behind, ?_, hbehind.trans (skipSpace_append hafter rest)⟩
    rw [List.append_assoc, List.append_assoc, ← value_skipSpace, skipSpace_append hbefore,
      value_skipSpace, hread]

/-- A text of a value is read as the value, if nothing else is there. -/
theorem Reads.decodeWithin (h : Reads depth cs v) : decodeWithin depth cs = .ok v := by
  obtain ⟨behind, hread, hbehind⟩ :=
    h.read (by omega : 2 * cs.length ≤ 2 * cs.length + 2) ends_nil
  have hwhole : whole? depth cs = .ok v := by
    rw [List.append_nil] at hread
    rw [whole?, hread]
    simp only [hbehind]
    rfl
  rw [Json.decodeWithin, hwhole]

/-- **Blanks alone are no text of a value**, whatever blanks they are. -/
theorem isBlankText_of_decode (h : decode cs = .ok v) : Text.isBlankText cs = false := by
  refine Bool.eq_false_iff.2 fun hblank => ?_
  have hfails : ∀ v rest, value (2 * cs.length + 2) greatestDepth cs ≠ .ok (v, rest) := by
    intro v rest hvalue
    rw [value] at hvalue
    split at hvalue
    · cases hvalue
    next c more hskip =>
    -- the first character behind the spaces is a blank, so none that starts a value
    have hsuffix : c :: more <:+ cs := hskip ▸ List.dropWhile_suffix isSpace
    have hc := List.all_eq_true.1 hblank c (hsuffix.subset List.mem_cons_self)
    have hne {d : Char} (hd : Text.isBlank d = false) : c ≠ d := Text.ne_of_isBlank hc hd
    have hdigit : ¬ c.isDigit = true := by
      intro hdigit
      obtain ⟨hlow, hhigh⟩ : 48 ≤ c.toNat ∧ c.toNat ≤ 57 := by
        simpa [Char.isDigit, UInt32.le_iff_toNat_le] using hdigit
      simp [Text.isBlank] at hc
      omega
    rw [if_neg (hne (by decide)), if_neg (hne (by decide)), if_neg (hne (by decide)),
      if_neg (hne (by decide)), if_neg hdigit, if_neg (hne (by decide)),
      if_neg (hne (by decide)), if_neg (hne (by decide))] at hvalue
    cases hvalue
  rw [decode, Json.decodeWithin, whole?] at h
  cases hvalue : value (2 * cs.length + 2) greatestDepth cs with
  | error stop =>
    rw [hvalue] at h
    cases h
  | ok read => exact hfails read.1 read.2 hvalue

/-! ## Words, numbers and strings -/

/-- A word is read to its end. -/
theorem word_append (v : Value) (letters rest : List Char) :
    word v letters (letters ++ rest) = .ok (v, rest) := by
  induction letters with
  | nil => cases rest <;> rfl
  | cons c letters ih => simp [word, ih]

theorem reads_null (depth : Nat) : Reads depth ['n', 'u', 'l', 'l'] .null := by
  refine reads_cons (c := 'n') (by decide) fun steps rest _ _ => ?_
  rw [value, skipSpace_cons (c := 'n') rfl]
  simpa using word_append .null ['u', 'l', 'l'] rest

theorem reads_true (depth : Nat) : Reads depth ['t', 'r', 'u', 'e'] (.bool true) := by
  refine reads_cons (c := 't') (by decide) fun steps rest _ _ => ?_
  rw [value, skipSpace_cons (c := 't') rfl]
  simpa using word_append (.bool true) ['r', 'u', 'e'] rest

theorem reads_false (depth : Nat) : Reads depth ['f', 'a', 'l', 's', 'e'] (.bool false) := by
  refine reads_cons (c := 'f') (by decide) fun steps rest _ _ => ?_
  rw [value, skipSpace_cons (c := 'f') rfl]
  simpa using word_append (.bool false) ['a', 'l', 's', 'e'] rest

/-- **Whole numbers are read as they are by themselves.** -/
theorem reads_of_integral {rest' : List Char} (h : Integral text)
    (hread : value (steps + 1) depth text = .ok (v, rest')) (depth' : Nat) :
    Reads depth' text v := by
  have hled : Led text := by
    cases h with
    | unsigned hne hdigits =>
      obtain ⟨c, digits, rfl⟩ := List.exists_cons_of_ne_nil hne
      have hdigit := hdigits c List.mem_cons_self
      have hspace := isSpace_of_isDigit hdigit
      exact ⟨c, digits, skipSpace_cons hspace digits, hspace, ne_of_isDigit hdigit rfl⟩
    | negative => exact ⟨'-', _, skipSpace_cons rfl _, by decide⟩
  have hpos := hled.length_pos
  refine ⟨hled, fun steps' rest hsteps hrest => ?_⟩
  obtain ⟨steps', rfl⟩ := Nat.exists_eq_succ_of_ne_zero (by omega : steps' ≠ 0)
  exact ⟨rest, value_of_integral h hread hrest steps' depth', rfl⟩

theorem reads_of_decode (h : Integral text) (hdecode : decode text = .ok v) (depth : Nat) :
    Reads depth text v := by
  have hwhole : whole? greatestDepth text = .ok v := by
    unfold decode Json.decodeWithin at hdecode
    split at hdecode
    · next heq => rw [heq, Except.ok.inj hdecode]
    · cases hdecode
  unfold whole? at hwhole
  split at hwhole
  · cases hwhole
  · next w behind hread =>
    split at hwhole
    · rw [Except.ok.inj hwhole] at hread
      exact reads_of_integral h hread depth
    · cases hwhole

/-- **What is read up to its closing quote is a string.** -/
theorem reads_string (h : ∀ rest, stringRest (text ++ '"' :: rest) = .ok (cs, rest)) (depth : Nat) :
    Reads depth ('"' :: (text ++ ['"'])) (.string (String.ofList cs)) := by
  refine reads_cons (c := '"') (by decide) fun steps rest _ _ => ?_
  rw [value, skipSpace_cons (c := '"') rfl, List.append_assoc, List.singleton_append]
  simp [h rest, Except.map]

/-! ## Lists -/

/-- Texts with commas between them. -/
def separated (texts : List (List Char)) : List Char :=
  [','].intercalate texts

@[simp] theorem separated_nil : separated [] = [] := rfl

@[simp] theorem separated_singleton (text : List Char) : separated [text] = text :=
  List.intercalate_singleton

@[simp] theorem separated_cons_cons (text next : List Char) (texts : List (List Char)) :
    separated (text :: next :: texts) = text ++ ',' :: separated (next :: texts) := by
  rw [separated, List.intercalate_cons_cons]
  simp [separated]

theorem led_separated {texts : List (List Char)} (h : Led text) :
    Led (separated (text :: texts)) := by
  cases texts with
  | nil => rwa [separated_singleton]
  | cons next texts =>
    rw [separated_cons_cons]
    exact h.append _

/-- **The items of a list are read** up to its end. -/
theorem items_separated {parts : List (List Char × Value)} (hne : parts ≠ [])
    (h : ∀ part ∈ parts, Reads depth part.1 part.2)
    (hsteps : 2 * (separated (parts.map Prod.fst)).length + 1 ≤ steps) (rest : List Char) :
    items steps depth (separated (parts.map Prod.fst) ++ ']' :: rest) =
      .ok (parts.map Prod.snd, rest) := by
  induction parts generalizing steps with
  | nil => exact absurd rfl hne
  | cons part parts ih =>
    obtain ⟨steps, rfl⟩ := Nat.exists_eq_succ_of_ne_zero (by omega : steps ≠ 0)
    have hfirst := h part List.mem_cons_self
    cases parts with
    | nil =>
      simp only [List.map_cons, List.map_nil, separated_singleton] at hsteps ⊢
      obtain ⟨behind, hread, hbehind⟩ := hfirst.read (by omega : 2 * part.1.length ≤ steps)
        (ends_cons (c := ']') (by decide) rest)
      rw [skipSpace_cons (c := ']') rfl] at hbehind
      rw [items, hread]
      simp only [hbehind]
    | cons next parts =>
      have hled : Led (separated (next.1 :: parts.map Prod.fst)) :=
        led_separated (h next (by simp)).led
      have hpos := hled.length_pos
      simp only [List.map_cons, separated_cons_cons, List.length_append, List.length_cons]
        at hsteps ih ⊢
      -- the comma ends the first item, and the rest is read with one step less
      obtain ⟨behind, hread, hbehind⟩ := hfirst.read (by omega : 2 * part.1.length ≤ steps)
        (ends_cons (c := ',') (by decide)
          (separated (next.1 :: parts.map Prod.fst) ++ ']' :: rest))
      have hmore := ih (by simp) (fun p hp => h p (List.mem_cons_of_mem part hp))
        (by omega : _ ≤ steps)
      obtain ⟨steps, rfl⟩ := Nat.exists_eq_add_of_le (by omega : 2 ≤ steps)
      rw [Nat.add_comm 2 steps] at hread hmore ⊢
      rw [← items_skipSpace] at hmore
      rw [skipSpace_cons (c := ',') rfl] at hbehind
      obtain ⟨c, cs, hskip, hleads⟩ := hled.append (']' :: rest)
      rw [hskip] at hmore
      rw [List.append_assoc, List.cons_append, items, hread]
      simp only [hbehind, hskip]
      -- what leads an item is no end of the list, so the comma is not the last
      split
      · next heq => cases heq
      · next heq => exact absurd (List.cons.inj heq).1 hleads.2
      · rw [hmore]
        rfl

/-- **A list of texts is a text of the list of their values.** -/
theorem reads_array {parts : List (List Char × Value)} (hgap : Spaces gap)
    (h : ∀ part ∈ parts, Reads depth part.1 part.2) :
    Reads (depth + 1) ('[' :: (gap ++ (separated (parts.map Prod.fst) ++ [']'])))
      (.array (parts.map Prod.snd)) := by
  refine reads_cons (c := '[') (by decide) fun steps rest hsteps _ => ?_
  simp only [List.length_append, List.length_cons, List.length_nil] at hsteps
  rw [value, skipSpace_cons (c := '[') rfl]
  have hskip := skipSpace_append hgap (separated (parts.map Prod.fst) ++ ']' :: rest)
  cases parts with
  | nil =>
    have hend := skipSpace_cons (c := ']') rfl rest
    rw [List.map_nil, separated_nil, List.nil_append, hend] at hskip
    simp [hskip]
  | cons part parts =>
    have hled : Led (separated (part.1 :: parts.map Prod.fst)) :=
      led_separated (h part List.mem_cons_self).led
    have hpos := hled.length_pos
    have hread := items_separated (List.cons_ne_nil part parts) h
      (by omega : _ ≤ steps) rest
    rw [List.map_cons] at hsteps hskip hread
    obtain ⟨steps, rfl⟩ := Nat.exists_eq_add_of_le (by omega : 2 ≤ steps)
    rw [Nat.add_comm 2 steps] at hread ⊢
    rw [← items_skipSpace] at hread
    obtain ⟨c, cs, hlead, hleads⟩ := hled.append (']' :: rest)
    rw [hlead] at hskip hread
    have hnot : c ≠ ']' := hleads.2
    simp [hskip, hnot, hread, Except.map]

/-! ## Objects -/

/-- **A field of an object as it is written.** -/
structure Entry where
  /-- The spaces before the key. -/
  before : List Char
  /-- The key as it is spelled, without its quotes. -/
  spelling : List Char
  /-- The characters of the key. -/
  key : List Char
  /-- The spaces between the key and the colon. -/
  behind : List Char
  /-- The text of the value. -/
  text : List Char
  /-- The value. -/
  value : Value

namespace Entry

/-- The text of a field. -/
def written (e : Entry) : List Char :=
  e.before ++ '"' :: (e.spelling ++ '"' :: (e.behind ++ ':' :: e.text))

/-- The field. -/
def field (e : Entry) : String × Value :=
  (String.ofList e.key, e.value)

/-- That the text of a field is read as the field. -/
structure Reads (depth : Nat) (e : Entry) : Prop where
  /-- Nothing stands before the key. -/
  before : Spaces e.before
  /-- The key is read up to its closing quote. -/
  key : ∀ rest, stringRest (e.spelling ++ '"' :: rest) = .ok (e.key, rest)
  /-- Nothing stands between the key and the colon. -/
  behind : Spaces e.behind
  /-- The text of the value is one. -/
  value : Json.Reads depth e.text e.value

end Entry

/-- **The fields of an object are read** up to its end, from behind the quote that
they start with. -/
theorem fields_separated {entries : List Entry} (hne : entries ≠ [])
    (h : ∀ e ∈ entries, e.Reads depth)
    (hsteps : 2 * (separated (entries.map Entry.written)).length + 1 ≤ steps) (rest : List Char) :
    ∃ behind, skipSpace (separated (entries.map Entry.written) ++ '}' :: rest) = '"' :: behind ∧
      fields steps depth behind = .ok (entries.map Entry.field, rest) := by
  induction entries generalizing steps with
  | nil => exact absurd rfl hne
  | cons e entries ih =>
    obtain ⟨steps, rfl⟩ := Nat.exists_eq_succ_of_ne_zero (by omega : steps ≠ 0)
    have hfirst := h e List.mem_cons_self
    have hskip (more : List Char) : skipSpace (e.written ++ more) =
        '"' :: (e.spelling ++ '"' :: (e.behind ++ ':' :: (e.text ++ more))) := by
      rw [Entry.written, List.append_assoc, skipSpace_append hfirst.before, List.cons_append,
        skipSpace_cons (c := '"') rfl]
      simp
    have hcolon (more : List Char) :
        skipSpace (e.behind ++ ':' :: more) = ':' :: more := by
      rw [skipSpace_append hfirst.behind, skipSpace_cons (c := ':') rfl]
    have hlength : e.text.length < e.written.length := by
      simp only [Entry.written, List.length_append, List.length_cons]
      omega
    cases entries with
    | nil =>
      simp only [List.map_cons, List.map_nil, separated_singleton] at hsteps ⊢
      obtain ⟨behind, hread, hbehind⟩ := hfirst.value.read (by omega : 2 * e.text.length ≤ steps)
        (ends_cons (c := '}') (by decide) rest)
      rw [skipSpace_cons (c := '}') rfl] at hbehind
      refine ⟨_, hskip _, ?_⟩
      rw [fields, hfirst.key]
      simp only [hcolon, hread, hbehind]
      rfl
    | cons next entries =>
      simp only [List.map_cons, separated_cons_cons, List.length_append, List.length_cons]
        at hsteps ih ⊢
      obtain ⟨behind, hread, hbehind⟩ := hfirst.value.read (by omega : 2 * e.text.length ≤ steps)
        (ends_cons (c := ',') (by decide)
          (separated (next.written :: entries.map Entry.written) ++ '}' :: rest))
      rw [skipSpace_cons (c := ',') rfl] at hbehind
      obtain ⟨inner, hquote, hmore⟩ := ih (by simp)
        (fun e' he' => h e' (List.mem_cons_of_mem e he')) (by omega : _ ≤ steps)
      refine ⟨_, by rw [List.append_assoc, List.cons_append, hskip], ?_⟩
      rw [fields, hfirst.key]
      simp only [hcolon, hread, hbehind, hquote, hmore]
      rfl

/-- **An object of texts is a text of the object of their values.** Of two fields
with one key the later counts. -/
theorem reads_object {entries : List Entry} (hgap : Spaces gap)
    (h : ∀ e ∈ entries, e.Reads depth) :
    Reads (depth + 1) ('{' :: (gap ++ (separated (entries.map Entry.written) ++ ['}'])))
      (.object (Keyed.ofList (entries.map Entry.field))) := by
  refine reads_cons (c := '{') (by decide) fun steps rest hsteps _ => ?_
  simp only [List.length_append, List.length_cons, List.length_nil] at hsteps
  rw [value, skipSpace_cons (c := '{') rfl]
  have hskip := skipSpace_append hgap (separated (entries.map Entry.written) ++ '}' :: rest)
  cases entries with
  | nil =>
    have hend := skipSpace_cons (c := '}') rfl rest
    rw [List.map_nil, separated_nil, List.nil_append, hend] at hskip
    have hempty : Keyed.ofList ([] : List (String × Value)) = [] := rfl
    simp [hskip, hempty]
  | cons e entries =>
    obtain ⟨behind, hquote, hread⟩ := fields_separated (List.cons_ne_nil e entries) h
      (by omega : _ ≤ steps) rest
    rw [hquote, List.map_cons] at hskip
    simp [hskip, hread, Except.map]

end Json

end Trellis
