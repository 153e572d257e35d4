import Trellis.Json.Value
import Trellis.Text.Cut
/-!
# Scope — paths into data

A path is written as segments with points between them. It leads through
objects by key and through lists by a decimal position, and nowhere else.
-/

namespace Trellis

/-- The segments of a path; there is always one, if an empty one. -/
abbrev Path := List String

namespace Path

/-- The segments of a text. -/
def segments (text : List Char) : Path :=
  (Text.pieces '.' text).map String.ofList

/-- The path that a text stands for, the blanks around it cut off. -/
def ofText (text : String) : Path :=
  segments (Text.trim text.toList)

/-- The greatest position that a segment can name, of sixty-four bits. -/
def greatestIndex : Nat := 0xFFFFFFFFFFFFFFFF

/-- The position that a segment names: digits, a plus sign allowed before
them. -/
def index? (segment : String) : Option Nat :=
  let digits :=
    match segment.toList with
    | '+' :: digits => digits
    | digits => digits
  if digits.isEmpty || !digits.all Char.isDigit then none
  else
    let n := digits.foldl (fun n c => n * 10 + (c.toNat - '0'.toNat)) 0
    if n ≤ greatestIndex then some n else none

/-- The value one segment below a value. -/
def step? (v : Json.Value) (segment : String) : Option Json.Value :=
  match v with
  | .object fields => Keyed.get? fields segment
  | .array items => (index? segment).bind (items[·]?)
  | _ => none

/-- **The value that a path leads to** from a value. -/
def resolve? (v : Json.Value) (path : Path) : Option Json.Value :=
  path.foldlM step? v

/-- The value that a path leads to from the fields of an object. -/
def resolveIn? (fields : Json.Fields) (path : Path) : Option Json.Value :=
  match path with
  | [] => none
  | first :: rest => (fields.get? first).bind (resolve? · rest)

end Path

end Trellis
