import Trellis.Json.Binary64
import Trellis.Text.Cut
import Trellis.Toml.Value
/-!
# Toml — reading settings files

A settings file is read line by line: comments, headers that open tables, and
keys with values. A reader takes what it can off the front of a text and gives
the rest; a text that is no settings file is refused as a whole.
-/

namespace Trellis

namespace Toml

/-- What a reader takes off a text, and the rest. -/
abbrev Reading (α : Type) := Option (α × List Char)

/-- Blanks within a line. -/
def isInlineBlank (c : Char) : Bool :=
  c == ' ' || c == '\t'

/-- The text without the blanks in front. -/
def skipBlanks (cs : List Char) : List Char :=
  cs.dropWhile isInlineBlank

/-- Whether a character may stand in comments and literal strings. -/
def isPrintable (c : Char) : Bool :=
  c == '\t' || (0x20 ≤ c.toNat && c.toNat ≠ 0x7F)

/-- The text behind a line end. -/
def behindLineEnd? : List Char → Option (List Char)
  | '\n' :: cs => some cs
  | '\r' :: '\n' :: cs => some cs
  | _ => none

/-- The text behind a comment, if it starts with one. -/
def skipComment : List Char → List Char
  | '#' :: cs => cs.dropWhile isPrintable
  | cs => cs

/-- The text behind the rest of a line: blanks, a comment and the line's end or
the text's. -/
def restOfLine? (cs : List Char) : Option (List Char) :=
  match skipComment (skipBlanks cs) with
  | [] => some []
  | cs => behindLineEnd? cs

/-- The text behind blanks, comments and line ends. -/
def skipLines : Nat → List Char → List Char
  | 0, cs => cs
  | steps + 1, cs =>
    match skipBlanks cs with
    | '#' :: cs => skipLines steps (cs.dropWhile isPrintable)
    | cs =>
      match behindLineEnd? cs with
      | some cs => skipLines steps cs
      | none => cs

/-- Whether a character may stand in a key without quotes. -/
def isBareKeyChar (c : Char) : Bool :=
  c.isAlphanum || c == '_' || c == '-'

/-- The value of a hexadecimal digit. -/
def digitValue? (c : Char) : Option Nat :=
  if c.isDigit then some (c.toNat - '0'.toNat)
  else if 'a' ≤ c ∧ c ≤ 'f' then some (c.toNat - 'a'.toNat + 10)
  else if 'A' ≤ c ∧ c ≤ 'F' then some (c.toNat - 'A'.toNat + 10)
  else none

/-- The number that digits of a base stand for. -/
def number? (base : Nat) (cs : List Char) : Option Nat :=
  cs.foldlM
    (fun n c =>
      match digitValue? c with
      | some d => if d < base then some (base * n + d) else none
      | none => none)
    0

/-- The character of a numbered escape of so many digits. -/
def numbered? (count : Nat) (cs : List Char) : Option (Char × Nat) :=
  let digits := cs.take count
  if digits.length = count then
    match number? 16 digits with
    | some n => if h : n.isValidChar then some (Char.ofNatAux n h, count + 1) else none
    | none => none
  else none

/-- The character of an escape, read behind its backslash, and how many
characters the escape takes. -/
def escape? : List Char → Option (Char × Nat)
  | 'b' :: _ => some ('\x08', 1)
  | 't' :: _ => some ('\t', 1)
  | 'n' :: _ => some ('\n', 1)
  | 'f' :: _ => some ('\x0c', 1)
  | 'r' :: _ => some ('\r', 1)
  | '"' :: _ => some ('"', 1)
  | '\\' :: _ => some ('\\', 1)
  | 'u' :: cs => numbered? 4 cs
  | 'U' :: cs => numbered? 8 cs
  | _ => none

/-- A string in double quotes, read behind the first. -/
def basic? (text : List Char) : Nat → List Char → Reading String
  | 0, _ => none
  | _, [] => none
  | steps + 1, c :: cs =>
    if c = '"' then some (String.ofList text.reverse, cs)
    else if c = '\\' then
      match escape? cs with
      | some (e, taken) => basic? (e :: text) steps (cs.drop taken)
      | none => none
    else if isPrintable c then basic? (c :: text) steps cs
    else none

/-- A string in single quotes, read behind the first. -/
def literal? (cs : List Char) : Reading String :=
  let text := cs.takeWhile fun c => isPrintable c && c != '\''
  match cs.drop text.length with
  | '\'' :: rest => some (String.ofList text, rest)
  | _ => none

/-- The number of quotes in front, five at most. -/
def quotesInFront (quote : Char) (cs : List Char) : Nat :=
  ((cs.take 5).takeWhile (· == quote)).length

/-- The text behind blanks and line ends, which a backslash at the end of a line
takes along; none if it stands before anything else. -/
def behindTrimmed? (cs : List Char) : Option (List Char) :=
  match behindLineEnd? (skipBlanks cs) with
  | none => none
  | some cs =>
    let rest := cs.dropWhile fun c => isInlineBlank c || c == '\n' || c == '\r'
    let trimmed := cs.take (cs.length - rest.length)
    if (trimmed.zip (trimmed.drop 1 ++ [' '])).all fun (c, next) => c != '\r' || next == '\n' then
      some rest
    else none

/-- A string in triple quotes, read behind the first three. -/
def multiline? (quote : Char) (text : List Char) : Nat → List Char → Reading String
  | 0, _ => none
  | _, [] => none
  | steps + 1, c :: cs =>
    if c = quote then
      let quotes := quotesInFront quote (c :: cs)
      if 3 ≤ quotes then
        let inner := List.replicate (quotes - 3) quote
        some (String.ofList (text.reverse ++ inner), (c :: cs).drop quotes)
      else multiline? quote (c :: text) steps cs
    else if c = '\\' && quote = '"' then
      match escape? cs with
      | some (e, taken) => multiline? quote (e :: text) steps (cs.drop taken)
      | none =>
        match behindTrimmed? cs with
        | some rest => multiline? quote text steps rest
        | none => none
    else
      match behindLineEnd? (c :: cs) with
      | some rest => multiline? quote ('\n' :: text) steps rest
      | none => if isPrintable c then multiline? quote (c :: text) steps cs else none

/-- The text behind a line end right after triple quotes, which is no part of
the string. -/
def behindFirstLineEnd (cs : List Char) : List Char :=
  (behindLineEnd? cs).getD cs

/-- A string of any kind. -/
def string? (cs : List Char) : Reading String :=
  match cs with
  | '"' :: '"' :: '"' :: rest => multiline? '"' [] (rest.length + 1) (behindFirstLineEnd rest)
  | '\'' :: '\'' :: '\'' :: rest => multiline? '\'' [] (rest.length + 1) (behindFirstLineEnd rest)
  | '"' :: rest => basic? [] (rest.length + 1) rest
  | '\'' :: rest => literal? rest
  | _ => none

/-- One key: bare, or in quotes of either kind. -/
def simpleKey? (cs : List Char) : Reading String :=
  match cs with
  | '"' :: rest => basic? [] (rest.length + 1) rest
  | '\'' :: rest => literal? rest
  | cs =>
    let key := cs.takeWhile isBareKeyChar
    if key.isEmpty then none else some (String.ofList key, cs.drop key.length)

/-- So many keys at most with points between them, the blanks around each
skipped. -/
def keysWithin? : Nat → List Char → Reading (List String)
  | 0, _ => none
  | steps + 1, cs =>
    match simpleKey? (skipBlanks cs) with
    | none => none
    | some (key, cs) =>
      match skipBlanks cs with
      | '.' :: cs => (keysWithin? steps cs).map fun (keys, rest) => (key :: keys, rest)
      | cs => some ([key], cs)

/-- How deep a key, or lists and tables written in place, may reach. -/
def greatestDepth : Nat := 79

/-- Keys with points between them, the blanks around each skipped. -/
def keys? (cs : List Char) : Reading (List String) :=
  keysWithin? greatestDepth cs

/-- Digits of a base with single underscores between them, and the rest. -/
def digits? (base : Nat) (cs : List Char) : Reading (List Char) :=
  let isDigit (c : Char) : Bool := (digitValue? c).any (· < base)
  let run := cs.takeWhile fun c => isDigit c || c == '_'
  let apart (a b : Char) : Bool := !(a == '_' && b == '_')
  if run.isEmpty || run.head? == some '_' || run.getLast? == some '_' then none
  else if (run.zip (run.drop 1)).all fun (a, b) => apart a b then
    some (run.filter (· != '_'), cs.drop run.length)
  else none

/-- How far whole numbers go below zero, with sixty-three bits and a sign. -/
def lowest : Int := -0x8000000000000000

/-- A whole number within sixty-four bits with a sign. -/
def integer? (n : Int) (rest : List Char) : Reading Value :=
  if lowest ≤ n ∧ n < -lowest then some (.integer n, rest) else none

/-- The power of ten of a number, zero if it has none, and the rest. -/
def power? : List Char → Reading Int
  | e :: cs =>
    if e = 'e' ∨ e = 'E' then
      let (negative, cs) :=
        match cs with
        | '+' :: cs => (false, cs)
        | '-' :: cs => (true, cs)
        | cs => (false, cs)
      (digits? 10 cs).bind fun (digits, rest) =>
        (number? 10 digits).map fun n => (if negative then -n else n, rest)
    else some (0, e :: cs)
  | [] => some (0, [])

/-- A number with decimals or a power of ten. One that is too large for a double
is refused, unless it is negative. -/
def decimal? (negative : Bool) (whole decimals cs : List Char) : Reading Value :=
  match power? cs, number? 10 (whole ++ decimals) with
  | some (power, rest), some number =>
    let nearest := Json.Binary64.nearestDecimal? number (power - decimals.length)
    if negative || nearest.isSome then some (.float, rest) else none
  | _, _ => none

/-- A number behind its sign. -/
def signed? (negative : Bool) (cs : List Char) : Reading Value :=
  match cs with
  | 'i' :: 'n' :: 'f' :: rest => some (.float, rest)
  | 'n' :: 'a' :: 'n' :: rest => some (.float, rest)
  | cs =>
    match digits? 10 cs with
    | none => none
    | some (digits, rest) =>
      let led := digits.head? == some '0' && 1 < (cs.length - rest.length)
      if led then none
      else
        match rest with
        | '.' :: cs =>
          (digits? 10 cs).bind fun (decimals, rest) => decimal? negative digits decimals rest
        | e :: _ =>
          if e = 'e' ∨ e = 'E' then decimal? negative digits [] rest
          else
            (number? 10 digits).bind fun n => integer? (if negative then -n else n) rest
        | [] => (number? 10 digits).bind fun n => integer? (if negative then -n else n) []

/-- The number of so many decimal digits in front. -/
def fixed? (count : Nat) (cs : List Char) : Reading Nat :=
  let digits := cs.take count
  if digits.length = count && digits.all Char.isDigit then
    (number? 10 digits).map fun n => (n, cs.drop count)
  else none

/-- The text behind a time of day. -/
def behindTime? (cs : List Char) : Option (List Char) := do
  let (hour, cs) ← fixed? 2 cs
  let cs ← Text.behind? [':'] cs
  let (minute, cs) ← fixed? 2 cs
  let cs ← Text.behind? [':'] cs
  let (second, cs) ← fixed? 2 cs
  if hour < 24 && minute < 60 && second ≤ 60 then
    match cs with
    | '.' :: cs =>
      let digits := cs.takeWhile Char.isDigit
      if digits.isEmpty then none else some (cs.drop digits.length)
    | cs => some cs
  else none

/-- The text behind a time's distance from the common one, if it has one. -/
def behindZone? (cs : List Char) : Option (List Char) :=
  let distance (cs : List Char) : Option (List Char) := do
    let (hour, cs) ← fixed? 2 cs
    let cs ← Text.behind? [':'] cs
    let (minute, cs) ← fixed? 2 cs
    if hour < 24 && minute < 60 then some cs else none
  match cs with
  | 'Z' :: cs => some cs
  | 'z' :: cs => some cs
  | '+' :: cs => distance cs
  | '-' :: cs => distance cs
  | cs => some cs

/-- Number of days of a month. -/
def daysOf (year month : Nat) : Nat :=
  if month = 2 then
    if year % 4 = 0 && (year % 100 != 0 || year % 400 = 0) then 29 else 28
  else if [4, 6, 9, 11].contains month then 30
  else 31

/-- The text behind a date, a time of day, or both. -/
def behindMoment? (cs : List Char) : Option (List Char) :=
  let date : Option (List Char) := do
    let (year, cs) ← fixed? 4 cs
    let cs ← Text.behind? ['-'] cs
    let (month, cs) ← fixed? 2 cs
    let cs ← Text.behind? ['-'] cs
    let (day, cs) ← fixed? 2 cs
    if 1 ≤ month && month ≤ 12 && 1 ≤ day && day ≤ daysOf year month then some cs else none
  match date with
  | none => behindTime? cs
  | some [] => some []
  | some (c :: rest) =>
    if c = 'T' || c = 't' || (c = ' ' && rest.head?.any Char.isDigit) then
      (behindTime? rest).bind behindZone?
    else some (c :: rest)

/-- Whether a text starts like a date or a time of day. -/
def startsMoment (cs : List Char) : Bool :=
  let digits := cs.takeWhile Char.isDigit
  let next := (cs.drop digits.length).head?
  (digits.length == 4 && next == some '-') || (digits.length == 2 && next == some ':')

/-- A whole number of a base without a sign. -/
def based? (base : Nat) (cs : List Char) : Reading Value :=
  (digits? base cs).bind fun (digits, rest) => (number? base digits).bind (integer? · rest)

/-- A number, a date or a time. -/
def scalar? (cs : List Char) : Reading Value :=
  match cs with
  | '0' :: 'x' :: rest => based? 16 rest
  | '0' :: 'o' :: rest => based? 8 rest
  | '0' :: 'b' :: rest => based? 2 rest
  | '+' :: rest => signed? false rest
  | '-' :: rest => signed? true rest
  | cs =>
    if startsMoment cs then (behindMoment? cs).map fun rest => (.moment, rest)
    else signed? false cs

mutual

/-- A value. The first number bounds the steps, the second the nesting. -/
def value? : Nat → Nat → List Char → Reading Value
  | 0, _, _ => none
  | steps + 1, depth, cs =>
    match cs with
    | '"' :: _ => (string? cs).map fun (s, rest) => (.string s, rest)
    | '\'' :: _ => (string? cs).map fun (s, rest) => (.string s, rest)
    | '[' :: cs =>
      match depth with
      | 0 => none
      | depth + 1 => (items? steps depth cs).map fun (vs, rest) => (.array vs, rest)
    | '{' :: cs =>
      match depth with
      | 0 => none
      | depth + 1 =>
        match skipBlanks cs with
        | '}' :: rest => some (.table .complete [], rest)
        | cs => (fields? steps depth [] cs).map fun (es, rest) => (.table .complete es, rest)
    | 't' :: 'r' :: 'u' :: 'e' :: rest => some (.boolean true, rest)
    | 'f' :: 'a' :: 'l' :: 's' :: 'e' :: rest => some (.boolean false, rest)
    | cs => scalar? cs

/-- The items of a list up to its end. A comma may stand behind the last. -/
def items? : Nat → Nat → List Char → Reading (List Value)
  | 0, _, _ => none
  | steps + 1, depth, cs =>
    match skipLines (cs.length + 1) cs with
    | ']' :: rest => some ([], rest)
    | cs =>
      match value? steps depth cs with
      | none => none
      | some (v, cs) =>
        match skipLines (cs.length + 1) cs with
        | ']' :: rest => some ([v], rest)
        | ',' :: cs => (items? steps depth cs).map fun (vs, rest) => (v :: vs, rest)
        | _ => none

/-- The fields of a table written in place, up to its end. -/
def fields? : Nat → Nat → Entries → List Char → Reading Entries
  | 0, _, _, _ => none
  | steps + 1, depth, found, cs =>
    match keys? cs with
    | none => none
    | some (keys, cs) =>
      match cs with
      | '=' :: cs =>
        match value? steps depth (skipBlanks cs) with
        | none => none
        | some (v, cs) =>
          match keys.reverse with
          | [] => none
          | key :: path =>
            match found.putAt? key v path.reverse with
            | none => none
            | some found =>
              match skipBlanks cs with
              | '}' :: rest => some (found, rest)
              | ',' :: cs => fields? steps depth found cs
              | _ => none
      | _ => none

end

/-- What was read so far: the tables, and the path of the open one. -/
structure State where
  /-- The tables. -/
  root : Entries := []
  /-- The path of the last header. -/
  path : List String := []

/-- The state after a header. -/
def State.openHeader (s : State) (element : Bool) (keys : List String) : Option State :=
  match keys.reverse with
  | [] => none
  | key :: path =>
    let change := if element then Entries.openElement? key else Entries.openTable? key
    (s.root.changeAt? change path.reverse).map fun root => { root, path := keys }

/-- The state after a key with its value in the open table. -/
def State.put (s : State) (keys : List String) (v : Value) : Option State :=
  match keys.reverse with
  | [] => none
  | key :: path =>
    (s.root.changeAt? (fun entries => entries.putAt? key v path.reverse) s.path).map
      fun root => { s with root }

/-- A header, read behind its first bracket. -/
def header? (s : State) (cs : List Char) : Reading State :=
  match cs with
  | '[' :: cs =>
    match keys? cs with
    | some (keys, ']' :: ']' :: rest) => (s.openHeader true keys).map fun s => (s, rest)
    | _ => none
  | cs =>
    match keys? cs with
    | some (keys, ']' :: rest) => (s.openHeader false keys).map fun s => (s, rest)
    | _ => none

/-- A key with its value. -/
def keyValue? (s : State) (cs : List Char) : Reading State :=
  match keys? cs with
  | some (keys, '=' :: cs) =>
    match value? (2 * cs.length + 2) greatestDepth (skipBlanks cs) with
    | some (v, rest) => (s.put keys v).map fun s => (s, rest)
    | none => none
  | _ => none

/-- The state after the lines of a text. -/
def lines? (s : State) : Nat → List Char → Option State
  | 0, _ => none
  | steps + 1, cs =>
    match skipLines (cs.length + 1) cs with
    | [] => some s
    | c :: cs =>
      let line := if c = '[' then header? s cs else keyValue? s (c :: cs)
      match line with
      | none => none
      | some (s, cs) =>
        match restOfLine? cs with
        | none => none
        | some cs => lines? s steps cs

/-- **The tables of a settings file**, if it is one. A mark of byte order in
front is skipped. -/
def read? (text : String) : Option Entries :=
  let cs := (Text.behind? ['\ufeff'] text.toList).getD text.toList
  (lines? {} (cs.length + 1) cs).map State.root

end Toml

end Trellis
