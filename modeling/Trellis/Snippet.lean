import Trellis.Text.Cut
/-!
# Snippet — the lines around a place

The excerpt of a source shown with an error: the error's line, up to two lines
on either side, and a caret under the column.
-/

namespace Trellis

/-- Consecutive lines of a source around one of its places. -/
structure Snippet where
  /-- Number of the first line shown, from one. -/
  firstLine : Nat
  /-- The lines shown. -/
  lines : List String
  /-- The line of the place, from one. -/
  line : Nat
  /-- The column of the place, from one. -/
  column : Nat
  deriving DecidableEq, Repr

namespace Snippet

/-- The lines of a source around a place. -/
def ofSource (source : String) (line column : Nat) : Snippet :=
  let firstLine := max (line - 2) 1
  let lines := ((Text.lines source.toList).drop (firstLine - 1)).take (line + 3 - firstLine)
  { firstLine, lines := lines.map String.ofList, line, column }

/-- A text moved to the right end of a field of the given width. -/
def padded (width : Nat) (s : String) : String :=
  String.ofList (List.replicate (width - s.length) ' ') ++ s

/-- The caret line. -/
def caret (column : Nat) : String :=
  "     | " ++ padded (max column 1) "^" ++ "\n"

/-- The numbered lines from a given number on, the caret line behind the line
of the place. -/
def shownFrom (s : Snippet) (number : Nat) : List String → String
  | [] => ""
  | text :: rest =>
    padded 4 (toString number) ++ " | " ++ text ++ "\n" ++
      (if number = s.line then caret s.column else "") ++ s.shownFrom (number + 1) rest

/-- The snippet as text. -/
def shown (s : Snippet) : String :=
  s.shownFrom s.firstLine s.lines

end Snippet

end Trellis
