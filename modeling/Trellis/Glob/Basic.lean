import Trellis.Error
/-!
# Glob — patterns of names

A pattern is literal text with wildcards: `?` for one byte, `*` for any text,
`**` for whole path components, classes in brackets and alternatives in braces.
A pattern is read from the left against the groups that are still open.
-/

namespace Trellis

namespace Glob

/-- A part of a pattern. -/
inductive Part where
  | literal (c : Char)
  | any
  | anyText
  | anyLeadingComponents
  | anyTrailingComponents
  | anyComponents
  | oneOf (negated : Bool) (ranges : List (Char × Char))
  | alternatives (branches : List (List Part))

instance : Inhabited Part := ⟨.any⟩

/-- What a reader of patterns is inside of. -/
inductive Mode where
  | text
  | escape
  | bracket (negated first inRange : Bool) (ranges : List (Char × Char))

/-- A pattern in the making: the parts of the innermost branch, the last one
first, and for every open group the finished branches, the last one first, with
the parts around the group. -/
structure Draft where
  /-- Where the reader is. -/
  mode : Mode := .text
  /-- The character read last. -/
  last : Option Char := none
  /-- The parts of the innermost branch, the last one first. -/
  parts : List Part := []
  /-- The open groups, the innermost one first. -/
  groups : List (List (List Part) × List Part) := []

namespace Draft

/-- The draft with one more part, after a character. -/
def add (d : Draft) (part : Part) (last : Char) : Draft :=
  { d with parts := part :: d.parts, last := some last, mode := .text }

/-- The draft after one more character in brackets. A range stands last in the
reversed list. -/
def inBracket (d : Draft) (negated first inRange : Bool) (ranges : List (Char × Char)) (c : Char) :
    Except PatternFault Draft :=
  let go (inRange : Bool) (ranges : List (Char × Char)) : Except PatternFault Draft :=
    .ok { d with mode := .bracket negated false inRange ranges, last := some c }
  let extended : Except PatternFault Draft :=
    match ranges with
    | (low, _) :: rest =>
      if c < low then .error (.invalidRange low c) else go false ((low, c) :: rest)
    | [] => go false [(c, c)]
  if c = ']' && !first then
    let ranges := if inRange then ('-', '-') :: ranges else ranges
    .ok (d.add (.oneOf negated ranges.reverse) c)
  else if c = '-' && !first && !inRange then go true ranges
  else if inRange then extended
  else go false ((c, c) :: ranges)

/-- The draft after `**` that makes whole components, and what part it makes of
the one before. -/
def addComponents (d : Draft) (trailing : Bool) (last : Char) : Draft :=
  match d.parts with
  | .anyLeadingComponents :: parts => { d with parts }.add .anyLeadingComponents last
  | .anyTrailingComponents :: parts => { d with parts }.add .anyTrailingComponents last
  | _ :: parts =>
    { d with parts }.add (if trailing then .anyTrailingComponents else .anyComponents) last
  | [] => d.add (if trailing then .anyTrailingComponents else .anyComponents) last

/-- The draft with the innermost branch finished by a comma. -/
def nextBranch (d : Draft) : Draft :=
  match d.groups with
  | [] => d.add (.literal ',') ','
  | (branches, around) :: groups =>
    { d with groups := (d.parts :: branches, around) :: groups, parts := [], last := some ',' }

/-- The draft with the innermost group finished by a brace. -/
def closeGroup (d : Draft) : Except PatternFault Draft :=
  match d.groups with
  | [] => .error .unopenedAlternates
  | (branches, around) :: groups =>
    let branches := (d.parts :: branches).reverse.map List.reverse
    .ok ({ d with parts := around, groups }.add (.alternatives branches) '}')

/-- The draft after one more character that is not a star. -/
def step (d : Draft) (c : Char) : Except PatternFault Draft :=
  match d.mode with
  | .escape => .ok (d.add (.literal c) c)
  | .bracket negated first inRange ranges => d.inBracket negated first inRange ranges c
  | .text =>
    if c = '?' then .ok (d.add .any c)
    else if c = '[' then .ok { d with mode := .bracket false true false [], last := some c }
    else if c = '{' then
      .ok { d with groups := ([], d.parts) :: d.groups, parts := [], last := some c }
    else if c = '}' then d.closeGroup
    else if c = ',' then .ok d.nextBranch
    else if c = '\\' then .ok { d with mode := .escape, last := some c }
    else .ok (d.add (.literal c) c)

/-- Whether `**` behind what was read can make whole components: at the start of
a branch, or behind a slash. -/
def afterSlash (d : Draft) : Bool :=
  d.last == some '/' || (!d.groups.isEmpty && (d.last == some ',' || d.last == some '{'))

/-- Whether the reader is outside of brackets and escapes. -/
def inText (d : Draft) : Bool :=
  match d.mode with
  | .text => true
  | _ => false

/-- Whether a bracket was just opened, so that a mark of negation may follow. -/
def atNegation (d : Draft) : Bool :=
  match d.mode with
  | .bracket false true false [] => d.last == some '['
  | _ => false

end Draft

/-- The draft after a text. -/
def read (d : Draft) : List Char → Except PatternFault Draft
  | [] => .ok d
  | c :: cs =>
    if d.inText && c = '*' then
      match cs with
      | '*' :: '/' :: rest =>
        if d.parts.isEmpty then read (d.add .anyLeadingComponents '/') rest
        else if d.afterSlash then read (d.addComponents false '/') rest
        else read (((d.add .anyText '*').add .anyText '*').add (.literal '/') '/') rest
      | ['*'] =>
        if d.parts.isEmpty then .ok (d.add .anyLeadingComponents '*')
        else if d.afterSlash then .ok (d.addComponents true '*')
        else .ok ((d.add .anyText '*').add .anyText '*')
      | '*' :: rest =>
        let endsBranch := !d.groups.isEmpty && (rest.head? == some ',' || rest.head? == some '}')
        if !d.parts.isEmpty && d.afterSlash && endsBranch then read (d.addComponents true '*') rest
        else read ((d.add .anyText '*').add .anyText '*') rest
      | rest => read (d.add .anyText '*') rest
    else if d.atNegation && (c = '!' || c = '^') then
      read { d with mode := .bracket true true false [], last := some c } cs
    else
      match d.step c with
      | .error fault => .error fault
      | .ok d => read d cs

/-- **The parts of a pattern**, or what is wrong with it. -/
def parse (pattern : String) : Except PatternFault (List Part) :=
  match read {} pattern.toList with
  | .error fault => .error fault
  | .ok d =>
    match d.mode with
    | .escape => .error .danglingEscape
    | .bracket .. => .error .unclosedClass
    | .text => if d.groups.isEmpty then .ok d.parts.reverse else .error .unclosedAlternates

end Glob

end Trellis
