import Trellis.Regex.Reader
import Trellis.Text.Cut
/-!
# Verbosity — how much is logged

A log setting lists directives with commas between them: a level, or a target
with a level of its own. What matters here is the most verbose level that any
directive asks for. A setting that is none counts as the level `warn`.
-/

namespace Trellis

/-- How much is logged, from nothing to everything. -/
inductive Verbosity where
  | off
  | error
  | warn
  | info
  | debug
  | trace
  deriving DecidableEq, Repr

namespace Verbosity

/-- All levels, the quietest first. -/
def all : List Verbosity :=
  [off, error, warn, info, debug, trace]

/-- The word for a level. -/
def name : Verbosity → String
  | off => "off"
  | error => "error"
  | warn => "warn"
  | info => "info"
  | debug => "debug"
  | trace => "trace"

/-- The position of a level, the quietest being zero. -/
def rank : Verbosity → Nat
  | off => 0
  | error => 1
  | warn => 2
  | info => 3
  | debug => 4
  | trace => 5

/-- The more verbose of two levels. -/
def max (a b : Verbosity) : Verbosity :=
  if a.rank < b.rank then b else a

/-- The level of a word, whatever its case, or of a digit. -/
def ofWord? (cs : List Char) : Option Verbosity :=
  let digits :=
    match cs with
    | '+' :: digits => digits
    | digits => digits
  let number :=
    if digits.isEmpty || !digits.all Char.isDigit then none
    else all[digits.foldl (fun n c => n * 10 + (c.toNat - '0'.toNat)) 0]?
  number.or (all.find? fun v => Text.sameIgnoringCase cs v.name.toList)

/-- The level behind a directive's equals sign: everything if none is given. -/
def ofLevel? (cs : List Char) : Option Verbosity :=
  if cs.isEmpty then some trace else ofWord? cs

/-- Whether a text is a number with decimals or a power of ten, without a sign. -/
def isDecimal (cs : List Char) : Bool :=
  let whole := cs.takeWhile Char.isDigit
  let behind := cs.drop whole.length
  let (decimals, behind) :=
    match behind with
    | '.' :: rest => (rest.takeWhile Char.isDigit, rest.dropWhile Char.isDigit)
    | rest => ([], rest)
  let power :=
    match behind with
    | e :: '+' :: digits => if e.toLower = 'e' then some digits else none
    | e :: '-' :: digits => if e.toLower = 'e' then some digits else none
    | e :: digits => if e.toLower = 'e' then some digits else none
    | [] => some ['0']
  !(whole ++ decimals).isEmpty && power.any fun digits => !digits.isEmpty && digits.all Char.isDigit

/-- Whether a text is a number: a decimal, infinity or no number at all, with or
without a sign. -/
def isNumber (cs : List Char) : Bool :=
  let unsigned :=
    match cs with
    | '+' :: rest => rest
    | '-' :: rest => rest
    | rest => rest
  isDecimal unsigned ||
    ["inf", "infinity", "nan"].any fun word => Text.sameIgnoringCase unsigned word.toList

/-- Whether a field may be compared with a value: a number, or an expression that
can be used. -/
def isValue (cs : List Char) : Bool :=
  isNumber cs || (Regex.read? cs).any Regex.Expr.isUsable

/-- The value that a field asks for, if it asks for one: what stands between its
first equals sign and the second. -/
def valueOf? (field : List Char) : Option (List Char) :=
  match field.dropWhile (· != '=') with
  | _ :: value => some (value.takeWhile (· != '='))
  | [] => none

/-- Where the reader of a directive is, with the offsets at which fields and
levels start. -/
inductive Place where
  | start
  | target
  | inSpan
  | inField (first : Nat)
  | behindFields
  | behindSpan
  | level (first : Nat)

/-- A directive in the making. -/
structure Draft where
  /-- Where the reader is. -/
  place : Place := .start
  /-- How many bytes were read. -/
  offset : Nat := 0
  /-- Where the field starts and ends, if there is one. -/
  field : Option (Nat × Nat) := none

/-- Whether a directive may start with a character. -/
def mayStart (c : Char) : Bool :=
  c == '-' || c == ':' || c == '_' || Text.isLetterOrNumber c

/-- Where the reader is after one more character, read at an offset. -/
def Place.step (p : Place) (offset : Nat) (c : Char) : Option Place :=
  match p with
  | start =>
    if c = '[' then some .inSpan
    else if mayStart c then some .target
    else none
  | target =>
    if c = '=' then some (.level (offset + 1))
    else if c = '[' then some .inSpan
    else some .target
  | inSpan =>
    if c = ']' then some .behindSpan
    else if c = '{' then some (.inField (offset + 1))
    else some .inSpan
  | inField first =>
    if c = '}' then if first = offset then none else some .behindFields
    else some (.inField first)
  | behindFields => if c = ']' then some .behindSpan else none
  | behindSpan => if c = '=' then some (.level (offset + 1)) else none
  | level first => some (.level first)

/-- The draft after one more character. -/
def Draft.step (d : Draft) (c : Char) : Option Draft :=
  (d.place.step d.offset c).map fun place =>
    let field :=
      match d.place, place with
      | .inField first, .behindFields => some (first, d.offset)
      | _, _ => d.field
    { place, offset := d.offset + c.utf8Size, field }

/-- Whether a field asks for a value; none if it asks for what is no value. -/
def fieldAsks? (field : List Char) : Option Bool :=
  match valueOf? field with
  | none => some false
  | some value => if isValue value then some true else none

/-- The level that a directive asks for. A directive about the value of a field
needs everything. What the parts of a directive are is settled without the
blanks around it, but the parts are read at the same offsets of the directive
with its blanks, so that blanks in front move them. -/
def ofDirective? (cs : List Char) : Option Verbosity := do
  let d ← (Text.trim cs).foldlM Draft.step {}
  let asks ←
    match d.field with
    | none => some false
    | some (first, stop) => (Text.slice? first stop cs).bind fieldAsks?
  let level ←
    match d.place with
    | .target => some ((ofWord? cs).getD trace)
    | .level first => (Text.cleave? first cs).bind fun (_, word) => ofLevel? word
    | .behindSpan => some trace
    | _ => none
  return if asks then trace else level

/-- **The most verbose level that a log setting asks for.** -/
def ofSetting (setting : String) : Verbosity :=
  let directives := (Text.pieces ',' setting.toList).filter fun cs => !cs.isEmpty
  match directives.mapM ofDirective? with
  | some levels => levels.foldl max off
  | none => warn

end Verbosity

end Trellis
