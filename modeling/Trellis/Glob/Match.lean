import Trellis.Glob.Basic
/-!
# Glob — matching names

Patterns are matched against the bytes of a name's UTF-8 form. What a part may
leave of a name is an end of it, and an end is known by its length, so the ends
that are possible behind some parts form a list without repetitions, the longest
first. `Part.rests` takes such a list to the one behind one more part, and a name
matches when the empty end is possible behind all parts.
-/

namespace Trellis

namespace Glob

/-- The bytes of a character. -/
def bytesOf (c : Char) : List UInt8 :=
  c.toString.toUTF8.toList

/-- The byte of a slash. -/
def slash : UInt8 := 0x2F

/-- Ends of one text with their lengths, the longest first, each once. -/
abbrev Ends := List (Nat × List UInt8)

namespace Ends

/-- The whole of a text as its only end. -/
def whole (bs : List UInt8) : Ends :=
  [(bs.length, bs)]

/-- The ends that are in one of two lists. -/
def union : Ends → Ends → Ends
  | [], right => right
  | left, [] => left
  | (m, a) :: left, (n, b) :: right =>
    if m = n then (m, a) :: union left right
    else if n < m then (m, a) :: union left ((n, b) :: right)
    else (n, b) :: union ((m, a) :: left) right
termination_by left right => left.length + right.length

/-- The ends behind one byte that is as asked. -/
def behindByte (asked : UInt8 → Bool) (ends : Ends) : Ends :=
  ends.filterMap fun (n, bs) =>
    match bs with
    | b :: rest => if asked b then some (n - 1, rest) else none
    | [] => none

/-- The ends behind the given bytes. -/
def behindBytes (lead : List UInt8) (ends : Ends) : Ends :=
  lead.foldl (fun ends b => ends.behindByte (· == b)) ends

/-- A text of the given length and everything behind one of its first bytes. -/
def tails (length : Nat) : List UInt8 → Ends
  | [] => [(length, [])]
  | b :: bs => (length, b :: bs) :: tails (length - 1) bs

/-- Everything behind one of the slashes of a text of the given length. -/
def behindSlashesOf (length : Nat) : List UInt8 → Ends
  | [] => []
  | b :: bs =>
    if b = slash then (length - 1, bs) :: behindSlashesOf (length - 1) bs
    else behindSlashesOf (length - 1) bs

/-- The ends and everything behind one of their first bytes. All of it lies in
the longest end. -/
def behindAny (ends : Ends) : Ends :=
  match ends with
  | [] => []
  | (n, bs) :: _ => tails n bs

/-- Everything behind one of the slashes of the ends. -/
def behindSlashes (ends : Ends) : Ends :=
  match ends with
  | [] => []
  | (n, bs) :: _ => behindSlashesOf n bs

/-- The ends behind a slash in front. -/
def behindSlash (ends : Ends) : Ends :=
  ends.behindByte (· == slash)

end Ends

/-- The byte ranges of a character range: the bytes of its ends, of which the
last byte of the lower and the first byte of the upper one span a range. -/
def byteRanges (range : Char × Char) : List (UInt8 × UInt8) :=
  let low := bytesOf range.1
  let high := bytesOf range.2
  if range.1 = range.2 then low.map fun b => (b, b)
  else
    match low.getLast?, high with
    | some l, h :: more =>
      low.dropLast.map (fun b => (b, b)) ++ (l, h) :: more.map fun b => (b, b)
    | _, _ => []

/-- Whether a byte is in one of the ranges. -/
def inRanges (ranges : List (UInt8 × UInt8)) (b : UInt8) : Bool :=
  ranges.any fun r => r.1 ≤ b && b ≤ r.2

mutual

/-- Whether a part takes nothing of any text: a group in which every branch is
empty of other parts. -/
def Part.isVoid : Part → Bool
  | .alternatives branches => Part.areVoidBranches branches
  | _ => false

/-- Whether all parts take nothing. -/
def Part.areVoid : List Part → Bool
  | [] => true
  | part :: parts => part.isVoid && Part.areVoid parts

/-- Whether all branches take nothing. -/
def Part.areVoidBranches : List (List Part) → Bool
  | [] => true
  | branch :: branches => Part.areVoid branch && Part.areVoidBranches branches

end

mutual

/-- **The ends that are possible behind a part**, in every way it can take the
front of one of the given ends. -/
def Part.rests : Part → Ends → Ends
  | .literal c, ends => ends.behindBytes (bytesOf c)
  | .any, ends => ends.behindByte fun _ => true
  | .anyText, ends => ends.behindAny
  | .anyLeadingComponents, ends => ends.union ends.behindSlashes
  | .anyTrailingComponents, ends => ends.behindSlash.behindAny
  | .anyComponents, ends => ends.behindSlash.union ends.behindSlash.behindSlashes
  | .oneOf negated ranges, ends =>
    let bytes := ranges.flatMap byteRanges
    ends.behindByte fun b => inRanges bytes b != negated
  | .alternatives branches, ends => Part.restsOfBranches branches false ends

/-- The ends that are possible behind parts, one behind the other. -/
def Part.restsOfAll : List Part → Ends → Ends
  | [], ends => ends
  | part :: parts, ends => Part.restsOfAll parts (part.rests ends)

/-- The ends that are possible behind the branches of a group. A void branch
counts for nothing; a group of void branches alone takes nothing. -/
def Part.restsOfBranches : List (List Part) → Bool → Ends → Ends
  | [], found, ends => if found then [] else ends
  | branch :: branches, found, ends =>
    if Part.areVoid branch then Part.restsOfBranches branches found ends
    else (Part.restsOfAll branch ends).union (Part.restsOfBranches branches true ends)

end

/-- **Whether a name matches the parts of a pattern as a whole.** -/
def matchesParts (parts : List Part) (name : String) : Bool :=
  match parts with
  | [.anyLeadingComponents] => true
  | parts => (Part.restsOfAll parts (.whole name.toUTF8.toList)).any fun rest => rest.1 == 0

end Glob

end Trellis
