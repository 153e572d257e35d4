import Trellis.Keyed
import Trellis.Json.Shortest
import Trellis.Text.Blank
/-!
# Json — data and its text

The data that templates show: trees of numbers, strings, lists and objects.
An object's fields are ordered by key. `Value.written` is the compact text of
a value, the one form in which data appears in pages and answers.
-/

namespace Trellis

namespace Json

/-- A number: a whole one that fits in 64 bits, or a double. -/
inductive Number where
  | int (value : Int)
  | float (value : Binary64)
  deriving DecidableEq, Repr

/-- A tree of data. -/
inductive Value where
  | null
  | bool (value : Bool)
  | number (value : Number)
  | string (value : String)
  | array (items : List Value)
  | object (fields : List (String × Value))
  deriving Repr

instance : Inhabited Value := ⟨.null⟩

/-- The fields of an object, ordered by key. -/
abbrev Fields := Keyed Value

/-- The two hexadecimal digits of a number below 256, in lower case. -/
def hexPair (n : Nat) : List Char :=
  [Nat.digitChar (n / 16), Nat.digitChar (n % 16)]

/-- **One character inside a string's text.** Quotes, backslashes and the
characters below the space are written with a backslash, everything else as
it is. -/
def escaped (c : Char) : List Char :=
  if c = '"' then ['\\', '"']
  else if c = '\\' then ['\\', '\\']
  else if c = '\x08' then ['\\', 'b']
  else if c = '\t' then ['\\', 't']
  else if c = '\n' then ['\\', 'n']
  else if c = '\x0c' then ['\\', 'f']
  else if c = '\r' then ['\\', 'r']
  else if c.toNat < 0x20 then ['\\', 'u', '0', '0'] ++ hexPair c.toNat
  else [c]

/-- A text escaped for the inside of a string. -/
def escapedText (cs : List Char) : List Char :=
  cs.flatMap escaped

/-- The text of a string, quotes included. -/
def quoted (cs : List Char) : List Char :=
  '"' :: escapedText cs ++ ['"']

/-- The text of a whole number. -/
def intText (n : Int) : List Char :=
  if n < 0 then '-' :: Nat.toDigits 10 n.natAbs else Nat.toDigits 10 n.natAbs

/-- The text of a number. -/
def Number.written : Number → List Char
  | .int n => intText n
  | .float x => x.text.toList

mutual

/-- **The compact text of a value**, without blanks. -/
def Value.written : Value → List Char
  | .null => ['n', 'u', 'l', 'l']
  | .bool true => ['t', 'r', 'u', 'e']
  | .bool false => ['f', 'a', 'l', 's', 'e']
  | .number n => n.written
  | .string s => quoted s.toList
  | .array items => '[' :: Value.writtenItems items ++ [']']
  | .object fields => '{' :: Value.writtenFields fields ++ ['}']

/-- The items of a list with commas between them. -/
def Value.writtenItems : List Value → List Char
  | [] => []
  | [v] => v.written
  | v :: w :: rest => v.written ++ ',' :: Value.writtenItems (w :: rest)

/-- The fields of an object with commas between them. -/
def Value.writtenFields : List (String × Value) → List Char
  | [] => []
  | [(k, v)] => quoted k.toList ++ ':' :: v.written
  | (k, v) :: f :: rest =>
    quoted k.toList ++ ':' :: v.written ++ ',' :: Value.writtenFields (f :: rest)

end

/-- The compact text of a value as a string. -/
def Value.text (v : Value) : String :=
  String.ofList v.written

/-- The name of a value's kind. -/
def Value.kindName : Value → String
  | .null => "null"
  | .bool _ => "boolean"
  | .number _ => "number"
  | .string _ => "string"
  | .array _ => "sequence"
  | .object _ => "mapping"

/-- Whether a number is zero. -/
def Number.isZero : Number → Bool
  | .int n => n == 0
  | .float x => x.isZero

/-- **Truth of a value.** Null, false, zero, the empty string, the word false
in any case, and empty lists and objects do not hold. -/
def Value.holds : Value → Bool
  | .null => false
  | .bool b => b
  | .number n => !n.isZero
  | .string s => !s.isEmpty && !Text.sameIgnoringCase s.toList ['f', 'a', 'l', 's', 'e']
  | .array items => !items.isEmpty
  | .object fields => !fields.isEmpty

/-- **What a template shows of a value**: nothing for null, a string as it
is, and the compact text of anything else. -/
def Value.shown : Value → List Char
  | .null => []
  | .string s => s.toList
  | v => v.written

end Json

end Trellis
