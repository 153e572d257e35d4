import Trellis.Glob.Match
/-!
# Glob — what a pattern is compared with

Some patterns say no more than what a name is, how it starts or how it ends, and
some no more than what the file at the end of it is called. Any other pattern is
an expression, and an expression that ends in an extension is tried only on names
that end in a file. A name whose last component is `..` ends in no file, so
patterns that ask for one refuse it whatever else they say.
-/

namespace Trellis

namespace Glob

/-- What a pattern is compared with. -/
inductive Reach where
  | text
  | file
  | extended
  | expression
  deriving DecidableEq, Repr

/-- The text of parts that are all literal. -/
def literalText? (parts : List Part) : Option (List Char) :=
  parts.mapM fun part =>
    match part with
    | .literal c => some c
    | _ => none

/-- The parts behind leading components. -/
def behindLeading : List Part → List Part
  | .anyLeadingComponents :: parts => parts
  | parts => parts

/-- The parts behind text of any kind. -/
def behindAnyText : List Part → List Part
  | .anyText :: parts => parts
  | parts => parts

/-- Whether a pattern is the name of a file in any directory. -/
def isFileName : List Part → Bool
  | .anyLeadingComponents :: parts =>
    (literalText? parts).any fun cs => !cs.isEmpty && !cs.contains '/'
  | _ => false

/-- Whether a pattern is an extension of any file. -/
def isExtension (parts : List Part) : Bool :=
  match behindLeading parts with
  | .anyText :: .literal '.' :: parts =>
    (literalText? parts).any fun cs => !cs.contains '.' && !cs.contains '/'
  | _ => false

/-- Whether a pattern is a text. -/
def isText (parts : List Part) : Bool :=
  (literalText? parts).any fun cs => !cs.isEmpty

/-- Whether a pattern says how a name starts. -/
def isBeginning (parts : List Part) : Bool :=
  match parts.reverse with
  | .anyText :: before => (literalText? before).any fun cs => !cs.isEmpty
  | .anyTrailingComponents :: before => (literalText? before).isSome
  | _ => false

/-- Whether a pattern says how a name ends. A slash alone says nothing, unless it
follows leading components. -/
def isEnding (parts : List Part) : Bool :=
  match parts with
  | .anyLeadingComponents :: .literal c :: rest => (literalText? (.literal c :: rest)).isSome
  | parts =>
    (literalText? (behindAnyText (behindLeading parts))).any fun cs => !cs.isEmpty && cs != ['/']

/-- Whether parts, the last one first, end in an extension. -/
def endsExtended : List Part → Bool
  | .literal '.' :: _ => true
  | .literal c :: before => c != '/' && endsExtended before
  | _ => false

/-- What a pattern is compared with. -/
def reach (parts : List Part) : Reach :=
  if isFileName parts then .file
  else if isText parts then .text
  else if isExtension parts then .file
  else if isBeginning parts || isEnding parts then .text
  else if endsExtended parts.reverse then .extended
  else .expression

/-- Whether a name ends in a file. -/
def endsInFile (name : String) : Bool :=
  (Text.pieces '/' name.toList).getLast? != some ['.', '.']

/-- **Whether a name matches a pattern.** -/
def accepts (parts : List Part) (name : String) : Bool :=
  match reach parts with
  | .text | .expression => matchesParts parts name
  | .file | .extended => endsInFile name && matchesParts parts name

end Glob

end Trellis
