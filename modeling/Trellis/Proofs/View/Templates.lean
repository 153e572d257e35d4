import Trellis.Proofs.Json.Reading
import Trellis.Proofs.Markup.Printing
/-!
# View — templates of data

A data section is a text of data whose strings have places for values, in double
braces. Whatever is filled in, escaped for strings, the places spell its characters,
so the reader of data finds the end of each string where the template has it
(`Denotes.reads`).
-/

namespace Trellis

namespace Template

/-- **A piece of a template**: a character, or the place of a value. -/
inductive Glyph where
  /-- A character that is shown as it is. -/
  | char (c : Char)
  /-- The place of the value at a path. -/
  | value (path : String)

/-- What values show, by path. -/
abbrev Filling := String → List Char

/-- A piece as it is written. -/
def Glyph.written : Glyph → List Char
  | char c => [c]
  | value path => (Markup.Piece.tag false path.toList).written

/-- A piece as it is shown in strings of data. -/
def Glyph.shown (fill : Filling) : Glyph → List Char
  | char c => [c]
  | value path => Json.escapedText (fill path)

/-- A template as it is written. -/
def written (t : List Glyph) : List Char :=
  t.flatMap Glyph.written

/-- A template as it is shown. -/
def shown (fill : Filling) (t : List Glyph) : List Char :=
  t.flatMap (Glyph.shown fill)

/-- A template without places. -/
def literal (cs : List Char) : List Glyph :=
  cs.map .char

/-- Templates with commas between them. -/
def separated (ts : List (List Glyph)) : List Glyph :=
  [Glyph.char ','].intercalate ts

/-- **A letter of a string**: a character as it is spelled, or the place of a value. -/
inductive Letter where
  /-- A text that spells a character. -/
  | spelled (text : List Char) (c : Char)
  /-- The place of the value at a path. -/
  | value (path : String)

namespace Letter

/-- A letter as a template. -/
def glyphs : Letter → List Glyph
  | spelled text _ => literal text
  | value path => [.value path]

/-- The characters that a letter stands for. -/
def chars (fill : Filling) : Letter → List Char
  | spelled _ c => [c]
  | value path => fill path

/-- That a letter may stand in a string: what spells a character has no braces, and
a path is read as one between double braces. -/
def Fits : Letter → Prop
  | spelled text c => Json.Spelling text c ∧ Markup.Braceless text
  | value path => Markup.Plain path ∧ Markup.Unsigned path

end Letter

/-- A field of an object in a template. Its key has no places. -/
structure Field where
  /-- The spaces before the key. -/
  before : List Char
  /-- The characters of the key, each with the text that spells it. -/
  key : List (List Char × Char)
  /-- The spaces between the key and the colon. -/
  behind : List Char
  /-- The template of the value. -/
  value : List Glyph
  /-- The value. -/
  means : Filling → Json.Value

namespace Field

/-- The key as it is spelled. -/
def spelling (f : Field) : List Char :=
  f.key.flatMap Prod.fst

/-- What is in front of the value. -/
def front (f : Field) : List Char :=
  f.before ++ '"' :: (f.spelling ++ '"' :: (f.behind ++ [':']))

/-- A field as a template. -/
def glyphs (f : Field) : List Glyph :=
  literal f.front ++ f.value

/-- A field as it is shown. -/
def entry (fill : Filling) (f : Field) : Json.Entry where
  before := f.before
  spelling := f.spelling
  key := f.key.map Prod.snd
  behind := f.behind
  text := shown fill f.value
  value := f.means fill

end Field

/-- **Templates of values**, with at most so many lists and objects around one
another. For each filling a template has a value: its strings have in each place
the characters that the filling gives. There may be spaces between the tokens, and
numbers are whole; of two fields with one key the later counts. -/
inductive Denotes : Nat → List Glyph → (Filling → Json.Value) → Prop where
  /-- The word of nothing. -/
  | null {depth : Nat} : Denotes depth (literal ['n', 'u', 'l', 'l']) fun _ => .null
  /-- The word of truth. -/
  | truth {depth : Nat} : Denotes depth (literal ['t', 'r', 'u', 'e']) fun _ => .bool true
  /-- The word of falsehood. -/
  | falsehood {depth : Nat} : Denotes depth (literal ['f', 'a', 'l', 's', 'e']) fun _ => .bool false
  /-- A whole number that the reader takes for a number when it is all there is. -/
  | number {depth : Nat} {text : List Char} {n : Json.Number} (integral : Json.Integral text)
      (read : Json.decode text = .ok (.number n)) :
      Denotes depth (literal text) fun _ => .number n
  /-- Letters between quotes. -/
  | string {depth : Nat} {letters : List Letter} (fit : ∀ l ∈ letters, l.Fits) :
      Denotes depth (.char '"' :: (letters.flatMap Letter.glyphs ++ [.char '"'])) fun fill =>
        .string (String.ofList (letters.flatMap (Letter.chars fill)))
  /-- Templates between brackets. -/
  | array {depth : Nat} {gap : List Char} {items : List (List Glyph × (Filling → Json.Value))}
      (spaces : Json.Spaces gap) (members : ∀ item ∈ items, Denotes depth item.1 item.2) :
      Denotes (depth + 1)
        (.char '[' :: (literal gap ++ (separated (items.map Prod.fst) ++ [.char ']']))) fun fill =>
        .array (items.map fun item => item.2 fill)
  /-- Fields between braces. -/
  | object {depth : Nat} {gap : List Char} {fields : List Field} (spaces : Json.Spaces gap)
      (before : ∀ f ∈ fields, Json.Spaces f.before)
      (keys : ∀ f ∈ fields, ∀ l ∈ f.key, (Letter.spelled l.1 l.2).Fits)
      (behind : ∀ f ∈ fields, Json.Spaces f.behind)
      (members : ∀ f ∈ fields, Denotes depth f.value f.means) :
      Denotes (depth + 1)
        (.char '{' :: (literal gap ++ (separated (fields.map Field.glyphs) ++ [.char '}'])))
        fun fill => .object
          (Keyed.ofList (fields.map fun f => (String.ofList (f.key.map Prod.snd), f.means fill)))
  /-- A template with spaces around it. -/
  | padded {depth : Nat} {before after : List Char} {t : List Glyph} {v : Filling → Json.Value}
      (front : Json.Spaces before) (back : Json.Spaces after) (inner : Denotes depth t v) :
      Denotes depth (literal before ++ (t ++ literal after)) v

variable {fill : Filling} {t u : List Glyph} {v : Filling → Json.Value} {depth : Nat}
  {cs : List Char}

/-! ## Templates are shown as texts -/

@[simp] theorem shown_nil (fill : Filling) : shown fill [] = [] := rfl

@[simp] theorem shown_char (fill : Filling) (c : Char) (t : List Glyph) :
    shown fill (.char c :: t) = c :: shown fill t := rfl

@[simp] theorem shown_append (fill : Filling) (t u : List Glyph) :
    shown fill (t ++ u) = shown fill t ++ shown fill u :=
  List.flatMap_append

theorem shown_flatMap {α : Type} (fill : Filling) (as : List α) (f : α → List Glyph) :
    shown fill (as.flatMap f) = as.flatMap fun a => shown fill (f a) :=
  List.flatMap_assoc

@[simp] theorem written_literal (cs : List Char) : written (literal cs) = cs := by
  induction cs with
  | nil => rfl
  | cons c cs ih => exact congrArg (c :: ·) ih

@[simp] theorem shown_literal (fill : Filling) (cs : List Char) :
    shown fill (literal cs) = cs := by
  induction cs with
  | nil => rfl
  | cons c cs ih => exact congrArg (c :: ·) ih

@[simp] theorem separated_nil : separated [] = [] := rfl

@[simp] theorem separated_singleton (t : List Glyph) : separated [t] = t :=
  List.intercalate_singleton

@[simp] theorem separated_cons_cons (t u : List Glyph) (ts : List (List Glyph)) :
    separated (t :: u :: ts) = t ++ .char ',' :: separated (u :: ts) := by
  rw [separated, List.intercalate_cons_cons]
  simp [separated]

@[simp] theorem shown_separated (fill : Filling) (ts : List (List Glyph)) :
    shown fill (separated ts) = Json.separated (ts.map (shown fill)) := by
  induction ts with
  | nil => rfl
  | cons t ts ih =>
    cases ts with
    | nil => simp
    | cons u ts =>
      rw [separated_cons_cons, shown_append, shown_char, ih]
      simp

@[simp] theorem shown_field (fill : Filling) (f : Field) :
    shown fill f.glyphs = (f.entry fill).written := by
  simp [Field.glyphs, Field.front, Field.entry, Json.Entry.written]

/-- **A letter is read as its characters**, whatever is filled in. -/
theorem stringRest_letter {l : Letter} (h : l.Fits) (fill : Filling) (rest : List Char) :
    Json.stringRest (shown fill l.glyphs ++ rest) =
      (Json.stringRest rest).map fun (cs, rest) => (l.chars fill ++ cs, rest) := by
  cases l with
  | spelled text c =>
    rw [Letter.glyphs, shown_literal, h.1.spells]
    rfl
  | value path =>
    rw [Letter.glyphs, shown, List.flatMap_singleton]
    exact Json.stringRest_escapedText (fill path) rest

/-- So are the letters of a string, up to its closing quote. -/
theorem stringRest_letters {letters : List Letter} (h : ∀ l ∈ letters, l.Fits) (fill : Filling)
    (rest : List Char) :
    Json.stringRest (shown fill (letters.flatMap Letter.glyphs) ++ '"' :: rest) =
      .ok (letters.flatMap (Letter.chars fill), rest) := by
  induction letters with
  | nil =>
    rw [List.flatMap_nil, shown_nil, List.nil_append, Json.stringRest]
    simp
  | cons l letters ih =>
    rw [List.flatMap_cons, shown_append, List.append_assoc, stringRest_letter (h l List.mem_cons_self),
      ih fun l hl => h l (List.mem_cons_of_mem _ hl)]
    rfl

/-- A key is read as its characters. -/
theorem stringRest_key {key : List (List Char × Char)}
    (h : ∀ l ∈ key, (Letter.spelled l.1 l.2).Fits) (rest : List Char) :
    Json.stringRest (key.flatMap Prod.fst ++ '"' :: rest) = .ok (key.map Prod.snd, rest) := by
  -- a key is a string without places, whatever is filled in
  have hread := stringRest_letters (List.forall_mem_map.2 h) (fun _ => []) rest
  have hspelling : shown (fun _ => []) ((key.map fun l => Letter.spelled l.1 l.2).flatMap
      Letter.glyphs) = key.flatMap Prod.fst := by
    simp [List.flatMap_map, shown_flatMap, Letter.glyphs]
  have hchars : (key.map fun l => Letter.spelled l.1 l.2).flatMap (Letter.chars fun _ => []) =
      key.map Prod.snd := by
    rw [List.flatMap_map]
    exact List.flatMap_pure_eq_map ..
  rwa [hspelling, hchars] at hread

/-- **A template of a value is shown as a text of the value**, whatever is filled in. -/
theorem Denotes.reads (h : Denotes depth t v) (fill : Filling) :
    Json.Reads depth (shown fill t) (v fill) := by
  induction h with
  | null =>
    rw [shown_literal]
    exact Json.reads_null _
  | truth =>
    rw [shown_literal]
    exact Json.reads_true _
  | falsehood =>
    rw [shown_literal]
    exact Json.reads_false _
  | number integral read =>
    rw [shown_literal]
    exact Json.reads_of_decode integral read _
  | string fit =>
    rw [shown_char, shown_append]
    exact Json.reads_string (stringRest_letters fit fill) _
  | array spaces members ih =>
    rename_i depth gap items
    have hparts : ∀ part ∈ items.map fun item => (shown fill item.1, item.2 fill),
        Json.Reads depth part.1 part.2 := by
      intro part hpart
      obtain ⟨item, hitem, rfl⟩ := List.mem_map.1 hpart
      exact ih item hitem
    have hreads := Json.reads_array spaces hparts
    simpa [Function.comp_def] using hreads
  | object spaces before keys behind members ih =>
    rename_i depth gap fields
    have hentries : ∀ e ∈ fields.map (Field.entry fill), e.Reads depth := by
      intro e he
      obtain ⟨f, hf, rfl⟩ := List.mem_map.1 he
      exact ⟨before f hf, stringRest_key (keys f hf), behind f hf, ih f hf⟩
    have hreads := Json.reads_object spaces hentries
    simpa [Function.comp_def, Json.Entry.field, Field.entry] using hreads
  | padded front back inner ih =>
    rw [shown_append, shown_append, shown_literal, shown_literal]
    exact ih.padded front back

/-- A place whose path a string takes as it is may be filled with itself. -/
theorem shown_self (h : ∀ path, Glyph.value path ∈ t → ∀ c ∈ path.toList, Escape.isMarked c = false) :
    shown (fun path => (Glyph.value path).written) t = written t := by
  induction t with
  | nil => rfl
  | cons g t ih =>
    have hmore := ih fun path hpath => h path (List.mem_cons_of_mem g hpath)
    have hfirst : g.shown (fun path => (Glyph.value path).written) = g.written := by
      cases g with
      | char c => rfl
      | value path =>
        refine Escape.escapedText_of_not_marked fun c hc => ?_
        have hparts : c ∈ ['{', '{'] ∨ c ∈ path.toList ∨ c ∈ ['}', '}'] := by
          simpa [Glyph.written, Markup.Piece.written, Markup.opening, Markup.closing, or_assoc] using hc
        rcases hparts with hc | hc | hc
        · obtain rfl : c = '{' := by simpa using hc
          decide
        · exact h path List.mem_cons_self c hc
        · obtain rfl : c = '}' := by simpa using hc
          decide
    rw [shown, written, List.flatMap_cons, List.flatMap_cons, hfirst, ← shown, ← written, hmore]

/-- **A template is itself a text of data**, if no path in it has a character that
strings escape: its value has the places as they are written. -/
theorem Denotes.decode_written (h : Denotes Json.greatestDepth t v)
    (hpaths : ∀ path, Glyph.value path ∈ t → ∀ c ∈ path.toList, Escape.isMarked c = false) :
    Json.decode (written t) =
      .ok (v fun path => (Glyph.value path).written) := by
  rw [← shown_self hpaths]
  exact (h.reads _).decodeWithin

end Template

end Trellis
