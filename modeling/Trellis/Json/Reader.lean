import Trellis.Json.Value
import Trellis.Text.Cut
/-!
# Json — reading data

A strict reader of data texts. A text that is none is refused with the fault
and the place where the reading stopped, counted in lines from one and in
bytes of the line. Lists and objects nest up to a limit, numbers stay within
the doubles, and of two fields with one key the later counts.
-/

namespace Trellis

namespace Json

/-- Why a text is no data. -/
inductive Fault where
  | endInValue
  | endInList
  | endInObject
  | endInString
  | noValue
  | noWord
  | noColon
  | noListEnd
  | noObjectEnd
  | trailingComma
  | trailingText
  | keyNotString
  | malformedNumber
  | numberTooLarge
  | unknownEscape
  | loneSurrogate
  | brokenSurrogate
  | controlCharacter
  | nestedTooDeep
  deriving DecidableEq, Repr

/-- The wording of a fault. -/
def Fault.message : Fault → String
  | .endInValue => "EOF while parsing a value"
  | .endInList => "EOF while parsing a list"
  | .endInObject => "EOF while parsing an object"
  | .endInString => "EOF while parsing a string"
  | .noValue => "expected value"
  | .noWord => "expected ident"
  | .noColon => "expected `:`"
  | .noListEnd => "expected `,` or `]`"
  | .noObjectEnd => "expected `,` or `\x7d`"
  | .trailingComma => "trailing comma"
  | .trailingText => "trailing characters"
  | .keyNotString => "key must be a string"
  | .malformedNumber => "invalid number"
  | .numberTooLarge => "number out of range"
  | .unknownEscape => "invalid escape"
  | .loneSurrogate => "lone leading surrogate in hex escape"
  | .brokenSurrogate => "unexpected end of hex escape"
  | .controlCharacter => "control character (\\u0000-\\u001F) found while parsing a string"
  | .nestedTooDeep => "recursion limit exceeded"

/-- A fault with the place where the reading stopped: so many bytes into the
rest of the text. -/
structure Stop where
  /-- What is wrong. -/
  fault : Fault
  /-- The text from the last whole token on. -/
  rest : List Char
  /-- Bytes of it that were read as well. -/
  ahead : Nat
  deriving Repr

/-- A fault with its place in the text. -/
structure ReadError where
  /-- What is wrong. -/
  fault : Fault
  /-- The line, from one. -/
  line : Nat
  /-- Bytes of the line up to the place. -/
  column : Nat
  deriving DecidableEq, Repr

/-- The wording of a located fault. -/
def ReadError.message (e : ReadError) : String :=
  e.fault.message ++ " at line " ++ toString e.line ++ " column " ++ toString e.column

/-- What a reader takes off a text, and the rest. -/
abbrev Reading (α : Type) := Except Stop (α × List Char)

/-- A stop before the next character. -/
def stopAt (fault : Fault) (rest : List Char) : Except Stop α :=
  .error ⟨fault, rest, 0⟩

/-- A stop at the next character, its first byte included. -/
def stopOn (fault : Fault) (rest : List Char) : Except Stop α :=
  .error ⟨fault, rest, 1⟩

/-- The four characters that may stand between tokens. -/
def isSpace (c : Char) : Bool :=
  c == ' ' || c == '\t' || c == '\n' || c == '\r'

/-- The text without the spaces in front. -/
def skipSpace (cs : List Char) : List Char :=
  cs.dropWhile isSpace

/-- The value of a hexadecimal digit. -/
def hexValue? (c : Char) : Option Nat :=
  if c.isDigit then some (c.toNat - '0'.toNat)
  else if 'a' ≤ c ∧ c ≤ 'f' then some (c.toNat - 'a'.toNat + 10)
  else if 'A' ≤ c ∧ c ≤ 'F' then some (c.toNat - 'A'.toNat + 10)
  else none

/-- The number that hexadecimal digits stand for. -/
def hexNumber? (cs : List Char) : Option Nat :=
  cs.foldlM (fun n c => (hexValue? c).map (16 * n + ·)) 0

/-- The four hexadecimal digits in front, where at least four bytes are left. -/
def hexUnit (cs : List Char) : Except Stop Nat :=
  let digits := cs.take 4
  if Text.width digits < 4 then stopAt .endInString []
  else
    match hexNumber? digits with
    | some n => if digits.length = 4 then .ok n else .error ⟨.unknownEscape, cs, 4⟩
    | none => .error ⟨.unknownEscape, cs, 4⟩

/-- Whether a sixteen-bit unit is the first half of a surrogate pair. -/
def isLeading (n : Nat) : Bool :=
  0xD800 ≤ n && n ≤ 0xDBFF

/-- Whether a sixteen-bit unit is the second half of a surrogate pair. -/
def isTrailing (n : Nat) : Bool :=
  0xDC00 ≤ n && n ≤ 0xDFFF

/-- The character of a numbered escape and the number of characters that it
takes: four digits, or two halves of a surrogate pair. -/
def numberedEscape (cs : List Char) : Except Stop (Char × Nat) := do
  let n ← hexUnit cs
  let rest := cs.drop 4
  if isTrailing n then stopAt .loneSurrogate rest
  else if !isLeading n then .ok (Char.ofNat n, 4)
  else
    match rest with
    | [] => stopAt .endInString []
    | '\\' :: [] => stopAt .endInString []
    | '\\' :: 'u' :: second => do
      let m ← hexUnit second
      if isTrailing m then
        .ok (Char.ofNat ((n - 0xD800) * 0x400 + (m - 0xDC00) + 0x10000), 10)
      else stopAt .loneSurrogate (second.drop 4)
    | '\\' :: other => stopOn .brokenSurrogate other
    | other => stopOn .brokenSurrogate other

/-- The character of an escape, read behind its backslash, and the number of
characters that the escape takes. -/
def escape : List Char → Except Stop (Char × Nat)
  | [] => stopAt .endInString []
  | c :: cs =>
    if c = '"' then .ok ('"', 1)
    else if c = '\\' then .ok ('\\', 1)
    else if c = '/' then .ok ('/', 1)
    else if c = 'b' then .ok ('\x08', 1)
    else if c = 'f' then .ok ('\x0c', 1)
    else if c = 'n' then .ok ('\n', 1)
    else if c = 'r' then .ok ('\r', 1)
    else if c = 't' then .ok ('\t', 1)
    else if c = 'u' then (numberedEscape cs).map fun (c, taken) => (c, taken + 1)
    else stopOn .unknownEscape (c :: cs)

/-- The characters of a string, read behind its opening quote. -/
def stringRest (cs : List Char) : Reading (List Char) :=
  match cs with
  | [] => stopAt .endInString []
  | c :: cs =>
    if c = '"' then .ok ([], cs)
    else if c = '\\' then
      match escape cs with
      | .error stop => .error stop
      | .ok (e, taken) =>
        (stringRest (cs.drop taken)).map fun (text, rest) => (e :: text, rest)
    else if c.toNat < 0x20 then stopOn .controlCharacter (c :: cs)
    else (stringRest cs).map fun (text, rest) => (c :: text, rest)
termination_by cs.length
decreasing_by all_goals (simp only [List.length_cons, List.length_drop]; omega)

/-- The greatest whole number, of sixty-four bits. -/
def greatestWhole : Nat := 0xFFFFFFFFFFFFFFFF

/-- How far whole numbers go below zero, with sixty-three bits and a sign. -/
def greatestNegated : Nat := 0x8000000000000000

/-- The greatest power of ten that is counted, of thirty-one bits. -/
def greatestPower : Nat := 0x7FFFFFFF

/-- The digits gathered in front of a number until it would outgrow the whole
numbers, and how many digits were taken. -/
def gather (n : Nat) (taken : Nat) : List Char → Nat × Nat
  | [] => (n, taken)
  | c :: cs =>
    let next := n * 10 + (c.toNat - '0'.toNat)
    if greatestWhole < next then (n, taken) else gather next (taken + 1) cs

/-- The number with its sign. -/
def signed (positive : Bool) (x : Binary64) : Number :=
  .float (if positive then x else x.neg)

/-- The double of gathered digits and a power of ten. -/
def double (positive : Bool) (digits : Nat) (exponent : Int) (rest : List Char) :
    Reading Number :=
  match Binary64.ofDecimal? digits exponent with
  | some x => .ok (signed positive x, rest)
  | none => stopAt .numberTooLarge rest

/-- The power of ten that digits stand for, or the text behind the digit with
which it outgrows the powers counted. -/
def powerDigits (n : Nat) : List Char → Except (List Char) (Nat × List Char)
  | [] => .ok (n, [])
  | c :: cs =>
    if c.isDigit then
      let next := n * 10 + (c.toNat - '0'.toNat)
      if greatestPower < next then .error cs else powerDigits next cs
    else .ok (n, c :: cs)

/-- A number's power of ten, read behind the letter, and the number. -/
def powerPart (positive : Bool) (digits : Nat) (before : Int) (cs : List Char) :
    Reading Number :=
  let (raises, cs) :=
    match cs with
    | '+' :: cs => (true, cs)
    | '-' :: cs => (false, cs)
    | cs => (true, cs)
  match cs with
  | [] => stopAt .endInValue []
  | c :: rest =>
    if c.isDigit then
      match powerDigits 0 (c :: rest) with
      | .ok (power, rest) =>
        double positive digits (if raises then before + power else before - power) rest
      | .error rest =>
        if digits ≠ 0 && raises then stopAt .numberTooLarge rest
        else .ok (signed positive .zero, rest.dropWhile Char.isDigit)
    else stopOn .malformedNumber (c :: rest)

/-- A number's decimals, read behind the point, and the number. -/
def decimalPart (positive : Bool) (digits : Nat) (before : Int) (cs : List Char) :
    Reading Number :=
  let decimals := cs.takeWhile Char.isDigit
  let rest := cs.dropWhile Char.isDigit
  if decimals.isEmpty then
    if rest.isEmpty then stopAt .endInValue [] else stopOn .malformedNumber rest
  else
    let (digits, taken) := gather digits 0 decimals
    let exponent := before - taken
    match rest with
    | 'e' :: rest => powerPart positive digits exponent rest
    | 'E' :: rest => powerPart positive digits exponent rest
    | rest => double positive digits exponent rest

/-- A whole number with its sign, or the double where it does not fit. -/
def whole (positive : Bool) (digits : Nat) (rest : List Char) : Reading Number :=
  if positive then .ok (.int digits, rest)
  else if digits = 0 || greatestNegated < digits then double false digits 0 rest
  else .ok (.int (-(digits : Int)), rest)

/-- A number behind its sign. -/
def unsignedNumber (positive : Bool) (cs : List Char) : Reading Number :=
  match cs with
  | [] => stopAt .endInValue []
  | c :: more =>
    let run := cs.takeWhile Char.isDigit
    let rest := cs.dropWhile Char.isDigit
    if !c.isDigit then stopOn .malformedNumber cs
    else if c = '0' && 1 < run.length then stopOn .malformedNumber more
    else
      let (digits, taken) := gather 0 0 run
      let before : Int := (run.length - taken : Nat)
      match rest with
      | '.' :: rest => decimalPart positive digits before rest
      | 'e' :: rest => powerPart positive digits before rest
      | 'E' :: rest => powerPart positive digits before rest
      | rest =>
        if before = 0 then whole positive digits rest else double positive digits before rest

/-- The rest of a word that was begun. -/
def word (value : Value) : List Char → List Char → Reading Value
  | [], cs => .ok (value, cs)
  | _ :: _, [] => stopAt .endInValue []
  | w :: ws, c :: cs => if c = w then word value ws cs else stopOn .noWord (c :: cs)

mutual

/-- A value, the spaces before it skipped. The first number bounds the steps,
the second the nesting. -/
def value : Nat → Nat → List Char → Reading Value
  | 0, _, cs => stopAt .nestedTooDeep cs
  | steps + 1, depth, cs =>
    match skipSpace cs with
    | [] => stopAt .endInValue []
    | c :: cs =>
      if c = 'n' then word .null ['u', 'l', 'l'] cs
      else if c = 't' then word (.bool true) ['r', 'u', 'e'] cs
      else if c = 'f' then word (.bool false) ['a', 'l', 's', 'e'] cs
      else if c = '-' then
        (unsignedNumber false cs).map fun (n, rest) => (.number n, rest)
      else if c.isDigit then
        (unsignedNumber true (c :: cs)).map fun (n, rest) => (.number n, rest)
      else if c = '"' then
        (stringRest cs).map fun (text, rest) => (.string (String.ofList text), rest)
      else if c = '[' then
        match depth with
        | 0 => stopOn .nestedTooDeep (c :: cs)
        | depth + 1 =>
          match skipSpace cs with
          | ']' :: rest => .ok (.array [], rest)
          | [] => stopAt .endInList []
          | cs => (items steps depth cs).map fun (vs, rest) => (.array vs, rest)
      else if c = '{' then
        match depth with
        | 0 => stopOn .nestedTooDeep (c :: cs)
        | depth + 1 =>
          match skipSpace cs with
          | '}' :: rest => .ok (.object [], rest)
          | [] => stopAt .endInObject []
          | '"' :: cs =>
            (fields steps depth cs).map fun (fs, rest) => (.object (Keyed.ofList fs), rest)
          | cs => stopOn .keyNotString cs
      else stopOn .noValue (c :: cs)

/-- The items of a list up to its end. -/
def items : Nat → Nat → List Char → Reading (List Value)
  | 0, _, cs => stopAt .nestedTooDeep cs
  | steps + 1, depth, cs =>
    match value steps depth cs with
    | .error stop => .error stop
    | .ok (v, cs) =>
      match skipSpace cs with
      | [] => stopAt .endInList []
      | ']' :: rest => .ok ([v], rest)
      | ',' :: cs =>
        match skipSpace cs with
        | [] => stopAt .endInValue []
        | ']' :: rest => stopOn .trailingComma (']' :: rest)
        | cs => (items steps depth cs).map fun (vs, rest) => (v :: vs, rest)
      | cs => stopOn .noListEnd cs

/-- The fields of an object up to its end, read behind the opening quote of a
key. -/
def fields : Nat → Nat → List Char → Reading (List (String × Value))
  | 0, _, cs => stopAt .nestedTooDeep cs
  | steps + 1, depth, cs =>
    match stringRest cs with
    | .error stop => .error stop
    | .ok (key, cs) =>
      match skipSpace cs with
      | [] => stopAt .endInObject []
      | ':' :: cs =>
        match value steps depth cs with
        | .error stop => .error stop
        | .ok (v, cs) =>
          let field := (String.ofList key, v)
          match skipSpace cs with
          | [] => stopAt .endInObject []
          | '}' :: rest => .ok ([field], rest)
          | ',' :: cs =>
            match skipSpace cs with
            | [] => stopAt .endInValue []
            | '"' :: cs => (fields steps depth cs).map fun (fs, rest) => (field :: fs, rest)
            | '}' :: rest => stopOn .trailingComma ('}' :: rest)
            | cs => stopOn .keyNotString cs
          | cs => stopOn .noObjectEnd cs
      | cs => stopOn .noColon cs

end

/-- Reads a text that is one value with nothing but spaces around it. -/
def whole? (depth : Nat) (cs : List Char) : Except Stop Value :=
  match value (2 * cs.length + 2) depth cs with
  | .error stop => .error stop
  | .ok (v, rest) =>
    match skipSpace rest with
    | [] => .ok v
    | rest => stopOn .trailingText rest

/-- Line and column of a byte offset: the line feeds before it, and the bytes
since the last of them. -/
def lineColumn (line column : Nat) : Nat → List Char → Nat × Nat
  | _, [] => (line, column)
  | offset, c :: cs =>
    if offset = 0 then (line, column)
    else if offset < c.utf8Size then (line, column + offset)
    else if c = '\n' then lineColumn (line + 1) 0 (offset - c.utf8Size) cs
    else lineColumn line (column + c.utf8Size) (offset - c.utf8Size) cs

/-- Reads a text of data with at most so many lists and objects around a value,
or says what is wrong with it and where. -/
def decodeWithin (depth : Nat) (cs : List Char) : Except ReadError Value :=
  match whole? depth cs with
  | .ok v => .ok v
  | .error stop =>
    let (line, column) := lineColumn 1 0 (Text.width cs - Text.width stop.rest + stop.ahead) cs
    .error ⟨stop.fault, line, column⟩

/-- The greatest number of lists and objects around a value. -/
def greatestDepth : Nat := 127

/-- **Reads a text of data.** -/
def decode (cs : List Char) : Except ReadError Value :=
  decodeWithin greatestDepth cs

end Json

end Trellis
