import Trellis.Text.Cut
/-!
# Location — positions in a source

A location counts lines and columns from one, the column in characters, and
offsets in bytes. Walking over a text moves a location along it: `after`. The
location of an offset is therefore the start moved over the text before it.
-/

namespace Trellis

/-- A position in a source, with the end of the range that starts there. -/
structure Location where
  /-- Line of the first character, from one. -/
  line : Nat
  /-- Column of the first character, from one. -/
  column : Nat
  /-- Byte offset of the first character. -/
  offset : Nat
  /-- Byte offset one past the last character. -/
  endOffset : Nat
  deriving DecidableEq, Repr, Inhabited

namespace Location

/-- The first position of every source. -/
def start : Location := ⟨1, 1, 0, 0⟩

/-- The position behind one character. -/
def step (l : Location) (c : Char) : Location :=
  let offset := l.offset + c.utf8Size
  if c = '\n' then ⟨l.line + 1, 1, offset, offset⟩ else ⟨l.line, l.column + 1, offset, offset⟩

/-- The position behind a text. -/
def after (l : Location) (cs : List Char) : Location :=
  cs.foldl step l

/-- The position as the start of a range up to the given end. -/
def upTo (l : Location) (endOffset : Nat) : Location :=
  { l with endOffset }

@[simp] theorem after_nil (l : Location) : l.after [] = l := rfl

theorem after_append (l : Location) (a b : List Char) :
    l.after (a ++ b) = (l.after a).after b := by
  simp [after, List.foldl_append]

/-- **Offsets are byte counts.** -/
theorem offset_after (l : Location) (cs : List Char) :
    (l.after cs).offset = l.offset + Text.width cs := by
  induction cs generalizing l with
  | nil => simp
  | cons c cs ih =>
    have h : (l.step c).offset = l.offset + c.utf8Size := by
      unfold step
      split <;> rfl
    have := ih (l.step c)
    simp only [after, List.foldl_cons, Text.width_cons] at this ⊢
    omega

end Location

end Trellis
