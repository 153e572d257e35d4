import Trellis.Glob.Reach
/-!
# Glob — patterns as expressions

A pattern that is not settled by comparing texts becomes a regular expression
over bytes, and expressions nest only so deep. What counts is the nesting of the
expression as it is written: a sequence of two parts or more is one level, and so
are a group, a choice, a repetition and a class.
-/

namespace Trellis

namespace Glob

/-- How deep an expression may nest. -/
def greatestDepth : Nat := 250

/-- How many items of a sequence a part makes. -/
def Part.size : Part → Nat
  | .literal c => c.utf8Size
  | .anyTrailingComponents => 2
  | .alternatives branches => if Part.areVoidBranches branches then 0 else 1
  | _ => 1

/-- The depth of a sequence, given how many items it has and their greatest
depth. -/
def sequenceDepth (size depth : Nat) : Nat :=
  if 2 ≤ size then depth + 1 else depth

mutual

/-- How deep the expression of a part nests. -/
def Part.depth : Part → Nat
  | .literal _ => 0
  | .any => 0
  | .anyText => 1
  | .anyTrailingComponents => 1
  | .anyLeadingComponents => 4
  | .anyComponents => 4
  | .oneOf _ ranges => sequenceDepth (ranges.flatMap byteRanges).length 1
  | .alternatives branches =>
    if Part.areVoidBranches branches then 0
    else
      let proper := branches.filter fun branch => !Part.areVoid branch
      sequenceDepth proper.length (Part.greatestBranchDepth branches) + 1

/-- The greatest depth of the parts of a sequence. -/
def Part.greatestPartDepth : List Part → Nat
  | [] => 0
  | part :: parts => max part.depth (Part.greatestPartDepth parts)

/-- The greatest depth of some branches, each a sequence. -/
def Part.greatestBranchDepth : List (List Part) → Nat
  | [] => 0
  | branch :: branches =>
    max (sequenceDepth (branch.foldl (fun n part => n + part.size) 0) (Part.greatestPartDepth branch))
      (Part.greatestBranchDepth branches)

end

/-- How deep the expression of a whole pattern nests: it is a sequence, led by a
switch and a mark of the start. -/
def depth (parts : List Part) : Nat :=
  Part.greatestPartDepth parts + 1

/-- Whether the expression of a pattern nests too deep. -/
def nestsTooDeep (parts : List Part) : Bool :=
  greatestDepth < depth parts

/-- Whether a character has a meaning of its own in expressions. -/
def isMeta (c : Char) : Bool :=
  "\\.+*?()|[]\x7b\x7d^$#&-~".toList.contains c

/-- A byte as two hexadecimal digits. -/
def hexByte (b : UInt8) : List Char :=
  [Nat.digitChar (b.toNat / 16), Nat.digitChar (b.toNat % 16)]

/-- A character of an expression that stands for itself. -/
def escapedChar (c : Char) : List Char :=
  if c.toNat < 0x80 then if isMeta c then ['\\', c] else [c]
  else (bytesOf c).flatMap fun b => '\\' :: 'x' :: hexByte b

/-- A range of a class. -/
def writtenRange (range : Char × Char) : List Char :=
  if range.1 = range.2 then escapedChar range.1
  else escapedChar range.1 ++ '-' :: escapedChar range.2

mutual

/-- The expression of a part. -/
def Part.written : Part → List Char
  | .literal c => escapedChar c
  | .any => ['.']
  | .anyText => ".*".toList
  | .anyLeadingComponents => "(?:/?|.*/)".toList
  | .anyTrailingComponents => "/.*".toList
  | .anyComponents => "(?:/|/.*/)".toList
  | .oneOf negated ranges =>
    '[' :: (if negated then ['^'] else []) ++ ranges.flatMap writtenRange ++ [']']
  | .alternatives branches =>
    if Part.areVoidBranches branches then []
    else "(?:".toList ++ Part.writtenBranches branches ++ [')']

/-- The expression of a sequence of parts. -/
def Part.writtenAll : List Part → List Char
  | [] => []
  | part :: parts => part.written ++ Part.writtenAll parts

/-- The expressions of the branches that are not void, bars between them. -/
def Part.writtenBranches : List (List Part) → List Char
  | [] => []
  | branch :: branches =>
    if Part.areVoid branch then Part.writtenBranches branches
    else if Part.areVoidBranches branches then Part.writtenAll branch
    else Part.writtenAll branch ++ '|' :: Part.writtenBranches branches

end

/-- The expression of a pattern. -/
def expression (parts : List Part) : String :=
  String.ofList ("(?-u)^".toList ++ Part.writtenAll parts ++ ['$'])

/-- Refuses patterns of which an expression nests too deep. Those that end in an
extension are looked at first. -/
def checkDepth (patterns : List (List Part)) : Except SettingFault Unit :=
  let deepExtended := patterns.find? fun parts => reach parts = .extended && nestsTooDeep parts
  match deepExtended with
  | some parts => .error (.deepExpression (expression parts))
  | none =>
    match (patterns.filter fun parts => reach parts = .expression).findIdx? nestsTooDeep with
    | some position => .error (.deepPattern position)
    | none => .ok ()

/-- The patterns of a list of texts, or the first that is none. -/
def parseAll : List String → Except SettingFault (List (List Part))
  | [] => .ok []
  | pattern :: rest =>
    match parse pattern with
    | .error fault => .error (.invalidPattern pattern fault)
    | .ok parts => do
      let more ← parseAll rest
      return parts :: more

/-- **The patterns of a list of texts**, if all of them can be used. -/
def readAll (patterns : List String) : Except SettingFault (List (List Part)) := do
  let read ← parseAll patterns
  checkDepth read
  return read

end Glob

end Trellis
