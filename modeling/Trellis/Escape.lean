import Trellis.Json.Value
/-!
# Escape — writing text where it must not act

Three escapings, each a map of characters: of text in a page, of text inside a
string of data, and of data inside a script element. Main statement: the
shortcut for text without anything to escape agrees with the map it skips.
-/

namespace Trellis

namespace Escape

/-- One character of page text or of a quoted attribute. -/
def pageChar (c : Char) : List Char :=
  if c = '&' then "&amp;".toList
  else if c = '<' then "&lt;".toList
  else if c = '>' then "&gt;".toList
  else if c = '"' then "&quot;".toList
  else if c = '\'' then "&#39;".toList
  else [c]

/-- Text for a page: markup characters and quotes become references. -/
def page (cs : List Char) : List Char :=
  cs.flatMap pageChar

/-- Control characters: the two blocks of them and the delete character. -/
def isControl (c : Char) : Bool :=
  c.toNat < 0x20 || (0x7F ≤ c.toNat && c.toNat ≤ 0x9F)

/-- Whether a character sends a text through the escaping of strings. -/
def isMarked (c : Char) : Bool :=
  c == '"' || c == '\\' || isControl c

/-- **Text for the inside of a string of data.** A text without quotes,
backslashes and control characters is taken as it is. -/
def string (cs : List Char) : List Char :=
  if cs.any isMarked then Json.escapedText cs else cs

/-- One character of data inside a script element. -/
def scriptChar (c : Char) : List Char :=
  if c = '<' then "\\u003c".toList
  else if c = '>' then "\\u003e".toList
  else if c = '&' then "\\u0026".toList
  else if c = '\u2028' then "\\u2028".toList
  else if c = '\u2029' then "\\u2029".toList
  else [c]

/-- The text of data for a script element: what could end the element or the
line becomes a numbered escape. -/
def script (cs : List Char) : List Char :=
  cs.flatMap scriptChar

/-- A character that needs no escaping in a string is written as it is. -/
theorem escaped_of_not_marked {c : Char} (h : isMarked c = false) : Json.escaped c = [c] := by
  simp only [isMarked, isControl, Bool.or_eq_false_iff, beq_eq_false_iff_ne,
    decide_eq_false_iff_not, Nat.not_lt] at h
  obtain ⟨⟨hq, hb⟩, hc, -⟩ := h
  have control (d : Char) (hd : d.toNat < 0x20) : c ≠ d := by
    intro e
    subst e
    omega
  simp [Json.escaped, hq, hb, control '\x08' (by decide), control '\t' (by decide),
    control '\n' (by decide), control '\x0c' (by decide), control '\r' (by decide),
    Nat.not_lt.2 hc]

/-- A text that needs no escaping is escaped as it is. -/
theorem escapedText_of_not_marked {cs : List Char} (h : ∀ c ∈ cs, isMarked c = false) :
    Json.escapedText cs = cs := by
  induction cs with
  | nil => rfl
  | cons c cs ih =>
    have rest := ih fun d hd => h d (List.mem_cons_of_mem c hd)
    have first := escaped_of_not_marked (h c List.mem_cons_self)
    simp only [Json.escapedText, List.flatMap_cons, first] at rest ⊢
    simp [rest]

/-- **The shortcut changes nothing.** -/
theorem string_eq_escapedText (cs : List Char) : string cs = Json.escapedText cs := by
  unfold string
  split
  · rfl
  · next h => exact (escapedText_of_not_marked (by simpa using h)).symm

end Escape

end Trellis
