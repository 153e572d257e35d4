import Trellis.Error
import Trellis.Text.Blank
/-!
# Markup — tokens

Markup is text with tags in double or triple braces. A tag names a value, a
partial, or a mark of a block. `Tag.token` says what the inside of a tag stands
for, and which fault it has when it stands for nothing.
-/

namespace Trellis

namespace Markup

/-- The three kinds of blocks. -/
inductive BlockKind where
  | conditional
  | negated
  | loop
  deriving DecidableEq, Repr

namespace BlockKind

/-- The word that opens and closes a block. -/
def keyword : BlockKind → String
  | conditional => "if"
  | negated => "unless"
  | loop => "each"

/-- The kind that a word opens. -/
def ofKeyword? (word : List Char) : Option BlockKind :=
  [conditional, negated, loop].find? fun kind => kind.keyword.toList == word

end BlockKind

/-- What a piece of markup stands for. -/
inductive Token where
  | text (content : String)
  | placeholder (name : String) (raw : Bool)
  | inclusion (name : String)
  | opener (kind : BlockKind) (argument : String)
  | otherwise
  | closer (kind : BlockKind)
  deriving DecidableEq, Repr

/-- A token with the range of the source that it takes. -/
structure Lexeme where
  /-- What the range stands for. -/
  token : Token
  /-- The range. -/
  location : Location
  deriving DecidableEq, Repr

/-- The braces in front of a tag; three of them where the value is shown
unescaped. -/
def opening (raw : Bool) : List Char :=
  if raw then ['{', '{', '{'] else ['{', '{']

/-- The braces behind a tag. -/
def closing (raw : Bool) : List Char :=
  if raw then ['}', '}', '}'] else ['}', '}']

/-- Whether a text names a partial: it is not empty and holds neither blanks
nor braces. -/
def isPartialName (cs : List Char) : Bool :=
  !cs.isEmpty && cs.all fun c => !Text.isBlank c && c != '{' && c != '}'

namespace Tag

/-- The token of a partial tag, read behind its sign. -/
def inclusion (cs : List Char) : Except SourceFault Token :=
  let name := Text.trim cs
  if isPartialName name then .ok (.inclusion (String.ofList name))
  else .error (.invalidPartialName (String.ofList name))

/-- The token of a block's opener, read behind its sign: a keyword, and behind
the first blank an argument. -/
def opener (cs : List Char) : Except SourceFault Token :=
  let cs := Text.trimStart cs
  let keyword := cs.takeWhile fun c => !Text.isBlank c
  let argument := Text.trim (cs.drop keyword.length)
  match BlockKind.ofKeyword? keyword with
  | none => .error (.unknownBlock (String.ofList keyword))
  | some kind =>
    if argument.isEmpty then .error (.missingBlockArgument (String.ofList keyword))
    else .ok (.opener kind (String.ofList argument))

/-- The token of a block's closer, read behind its sign. -/
def closer (cs : List Char) : Except SourceFault Token :=
  let keyword := Text.trim cs
  match BlockKind.ofKeyword? keyword with
  | none => .error (.unexpectedCloser (String.ofList keyword))
  | some kind => .ok (.closer kind)

/-- The token of a tag in double braces, from its trimmed inside. -/
def classified (cs : List Char) : Except SourceFault Token :=
  match cs with
  | [] => .error .emptyExpression
  | c :: rest =>
    if c = '>' then inclusion rest
    else if c = '#' then opener rest
    else if cs = "else".toList then .ok .otherwise
    else if c = '/' then closer rest
    else .ok (.placeholder (String.ofList cs) false)

/-- **The token of a tag**, from the text between its braces. -/
def token (raw : Bool) (inner : List Char) : Except SourceFault Token :=
  let inner := Text.trim inner
  if raw then
    if inner.isEmpty then .error .emptyExpression
    else .ok (.placeholder (String.ofList inner) true)
  else classified inner

end Tag

end Markup

end Trellis
