import Trellis.Regex.Basic
import Trellis.Text.Blank
/-!
# Regex — reading expressions

An expression is read from the left against the groups that are still open. With
the switch `x` on, blanks and comments between its parts count for nothing. Only
the part of the notation that does without closing braces is read, since the
places where expressions stand end at one; so an opening brace has no meaning
outside of brackets.
-/

namespace Trellis

namespace Regex

/-- What a reader takes off a text, and the rest. -/
abbrev Reading (α : Type) := Option (α × List Char)

/-- The text behind blanks and comments, possibly from inside a comment. -/
def behindSpace (inComment : Bool) : List Char → List Char
  | [] => []
  | c :: cs =>
    if inComment then behindSpace (c != '\n') cs
    else if Text.isBlank c then behindSpace false cs
    else if c = '#' then behindSpace true cs
    else c :: cs

/-- The text behind blanks and comments, if they count for nothing. -/
def skip (spaced : Bool) (cs : List Char) : List Char :=
  if spaced then behindSpace false cs else cs

/-- The next character behind blanks, if they count for nothing; a first sign of
a comment is passed over with them. -/
def next? (spaced : Bool) (cs : List Char) : Option Char :=
  if spaced then
    match cs.dropWhile Text.isBlank with
    | '#' :: rest => (rest.dropWhile Text.isBlank).head?
    | rest => rest.head?
  else cs.head?

/-- The value of a hexadecimal digit. -/
def hexValue? (c : Char) : Option Nat :=
  if c.isDigit then some (c.toNat - '0'.toNat)
  else if 'a' ≤ c ∧ c ≤ 'f' then some (c.toNat - 'a'.toNat + 10)
  else if 'A' ≤ c ∧ c ≤ 'F' then some (c.toNat - 'A'.toNat + 10)
  else none

/-- The number of so many hexadecimal digits, led by the one before them. -/
def hexNumber? (spaced : Bool) (led : Nat) : Nat → List Char → Reading Nat
  | 0, cs => some (led, cs)
  | count + 1, cs =>
    match skip spaced cs with
    | [] => none
    | c :: cs => (hexValue? c).bind fun d => hexNumber? spaced (16 * led + d) count cs

/-- The character of so many hexadecimal digits. -/
def hexChar? (spaced : Bool) (count : Nat) (cs : List Char) : Reading Char :=
  (hexNumber? spaced 0 count cs).bind fun (n, rest) =>
    if h : n.isValidChar then some (Char.ofNatAux n h, rest) else none

/-- The control character that a letter stands for behind a backslash. -/
def control? (c : Char) : Option Char :=
  match c with
  | 'a' => some '\x07'
  | 'f' => some '\x0c'
  | 't' => some '\t'
  | 'n' => some '\n'
  | 'r' => some '\r'
  | 'v' => some '\x0b'
  | _ => none

/-- Whether a character stands for itself behind a backslash: any mark of ASCII,
the angle brackets excepted. -/
def isEscapable (c : Char) : Bool :=
  isPlain c && !c.isAlphanum && c != '<' && c != '>'

/-- What a backslash begins, read behind it. -/
def escape? (spaced : Bool) (cs : List Char) : Reading Atom :=
  match cs with
  | [] => none
  | c :: cs =>
    match c with
    | 'x' => (hexChar? spaced 2 cs).map fun (c, rest) => (.char c true, rest)
    | 'u' => (hexChar? spaced 4 cs).map fun (c, rest) => (.char c false, rest)
    | 'U' => (hexChar? spaced 8 cs).map fun (c, rest) => (.char c false, rest)
    | 'p' | 'P' =>
      match skip spaced cs with
      | [] => none
      | name :: rest => if name = '{' ∨ name = '\\' then none else some (.property name, rest)
    | 'd' | 's' | 'w' => some (.kind false, cs)
    | 'D' | 'S' | 'W' => some (.kind true, cs)
    | 'A' | 'z' => some (.edge, cs)
    | 'b' | 'B' | '<' | '>' => some (.wordEdge, cs)
    | c =>
      match control? c with
      | some control => some (.char control false, cs)
      | none => if isEscapable c then some (.char c false, cs) else none

/-- The names of classes between colons. -/
def classNames : List String :=
  ["alnum", "alpha", "ascii", "blank", "cntrl", "digit", "graph", "lower", "print", "punct",
    "space", "upper", "word", "xdigit"]

/-- A class by its name between colons, read behind the bracket. -/
def namedClass? (cs : List Char) : Reading Class :=
  match cs with
  | ':' :: cs =>
    let (negated, cs) :=
      match cs with
      | '^' :: cs => (true, cs)
      | cs => (false, cs)
    let name := cs.takeWhile (· != ':')
    match cs.drop name.length with
    | ':' :: ']' :: rest =>
      if classNames.contains (String.ofList name) then some (.named negated, rest) else none
    | _ => none
  | _ => none

/-- One character of a class, or what a backslash begins. -/
def classAtom? (spaced : Bool) (cs : List Char) : Reading Atom :=
  match cs with
  | [] => none
  | '\\' :: cs => escape? spaced cs
  | c :: cs => some (.char c false, cs)

/-- An atom as an item of a class. -/
def Atom.item? (a : Atom) : Option Class :=
  match a with
  | .any | .edge | .wordEdge => none
  | a => some (.atom a)

/-- A range of characters between two atoms. -/
def range? (low high : Atom) : Option Class :=
  match low, high with
  | .char a _, .char b _ => if a ≤ b then some (.range a b) else none
  | _, _ => none

/-- An atom of a class, or a range. A hyphen before the end of the class or
before another hyphen makes no range. -/
def classRange? (spaced : Bool) (cs : List Char) : Reading Class :=
  match classAtom? spaced cs with
  | none => none
  | some (low, cs) =>
    match skip spaced cs with
    | [] => none
    | '-' :: behind =>
      let next := next? spaced behind
      if next == some ']' || next == some '-' then low.item?.map fun c => (c, '-' :: behind)
      else
        (classAtom? spaced (skip spaced behind)).bind fun (high, rest) =>
          (range? low high).map fun c => (c, rest)
    | cs => low.item?.map fun c => (c, cs)

/-- The hyphens at the start of a class, which stand for themselves, the last one
first. -/
def hyphens (spaced : Bool) (found : List Class) : Nat → List Char → List Class × List Char
  | 0, cs => (found, cs)
  | steps + 1, cs =>
    match cs with
    | '-' :: cs => hyphens spaced (.atom (.char '-' false) :: found) steps (skip spaced cs)
    | cs => (found, cs)

/-- What a class holds at its start, the last item first: hyphens, or else a
closing bracket. -/
def classStart (spaced : Bool) (cs : List Char) : List Class × List Char :=
  let (found, cs) := hyphens spaced [] cs.length cs
  match found, cs with
  | [], ']' :: cs => ([.atom (.char ']' false)], skip spaced cs)
  | found, cs => (found, cs)

/-- What was read of a class: the items since the last operation, the last one
first, and what stands before that. -/
structure ClassDraft where
  /-- The items, the last one first. -/
  items : List Class
  /-- What stands before the last operation. -/
  left : Option Class := none

/-- The class of a draft. -/
def ClassDraft.finish (d : ClassDraft) : Class :=
  let right := Class.ofItems d.items.reverse
  match d.left with
  | some left => .operation left right
  | none => right

mutual

/-- A class in brackets, read behind the first. -/
def class? (spaced : Bool) : Nat → List Char → Reading Class
  | 0, _ => none
  | steps + 1, cs =>
    let cs := skip spaced cs
    let (negated, cs) :=
      match cs with
      | '^' :: cs => (true, skip spaced cs)
      | cs => (false, cs)
    let (found, cs) := classStart spaced cs
    (classItems? spaced steps { items := found } cs).map fun (inside, rest) =>
      (.brackets negated inside, rest)

/-- The items of a class up to its closing bracket. -/
def classItems? (spaced : Bool) : Nat → ClassDraft → List Char → Reading Class
  | 0, _, _ => none
  | steps + 1, d, cs =>
    let add (read : Reading Class) : Reading Class :=
      read.bind fun (item, cs) => classItems? spaced steps { d with items := item :: d.items } cs
    match skip spaced cs with
    | [] => none
    | '[' :: cs =>
      match namedClass? cs with
      | some (item, cs) => classItems? spaced steps { d with items := item :: d.items } cs
      | none => add (class? spaced steps cs)
    | ']' :: cs => some (d.finish, cs)
    | '&' :: '&' :: cs => classItems? spaced steps { items := [], left := some d.finish } cs
    | '-' :: '-' :: cs => classItems? spaced steps { items := [], left := some d.finish } cs
    | '~' :: '~' :: cs => classItems? spaced steps { items := [], left := some d.finish } cs
    | cs => add (classRange? spaced cs)

end

/-- Whether a character may stand in the name of a group. -/
def isNameChar (first : Bool) (c : Char) : Bool :=
  c == '_' ||
    (if first then Text.isLetter c
    else c == '.' || c == '[' || c == ']' || Text.isLetterOrNumber c)

/-- The name of a group, read up to its angle bracket. -/
def groupName? (cs : List Char) : Reading String :=
  let name := cs.takeWhile (· != '>')
  match name, cs.drop name.length with
  | first :: more, '>' :: rest =>
    if isNameChar true first && more.all (isNameChar false) then some (String.ofList name, rest)
    else none
  | _, _ => none

/-- The letters of the switches. -/
def switchLetters : List Char := ['i', 'm', 's', 'U', 'u', 'R', 'x']

/-- Switches up to the mark behind them, a colon or a parenthesis, which stays.
Those behind a hyphen are off, and no letter stands there twice. -/
def switches? (off : Bool) (found : Switches) : List Char → Reading Switches
  | [] => none
  | c :: cs =>
    if c = ':' ∨ c = ')' then some (found, c :: cs)
    else if c = '-' then
      let ends := cs.head? == some ':' || cs.head? == some ')'
      if off || ends then none else switches? true found cs
    else if switchLetters.contains c && (found.get? c).isNone then
      switches? off (found ++ [(c, !off)]) cs
    else none

/-- A group that is still open: what was read before it. -/
structure Frame where
  /-- Whether blanks counted for nothing before it. -/
  spaced : Bool
  /-- Its switches. -/
  switches : Switches
  /-- The items before it, the last one first. -/
  items : List Expr
  /-- The branches before it, the last one first. -/
  branches : List Expr

/-- An expression in the making. -/
structure Draft where
  /-- Whether blanks count for nothing. -/
  spaced : Bool := false
  /-- The names of the groups. -/
  names : List String := []
  /-- The items of the innermost branch, the last one first. -/
  items : List Expr := []
  /-- The branches before it, the last one first. -/
  branches : List Expr := []
  /-- The open groups, the innermost one first. -/
  frames : List Frame := []

namespace Draft

/-- The draft with one more item. -/
def add (d : Draft) (e : Expr) : Draft :=
  { d with items := e :: d.items }

/-- The expression of the innermost level. -/
def inner (d : Draft) : Expr :=
  Expr.ofBranches (Expr.ofItems d.items.reverse :: d.branches).reverse

/-- The draft with the innermost branch finished by a bar. -/
def nextBranch (d : Draft) : Draft :=
  { d with items := [], branches := Expr.ofItems d.items.reverse :: d.branches }

/-- The draft inside one more group. -/
def opened (d : Draft) (switches : Switches) : Draft :=
  let frame : Frame := ⟨d.spaced, switches, d.items, d.branches⟩
  { d with
    spaced := (switches.get? 'x').getD d.spaced
    items := []
    branches := []
    frames := frame :: d.frames }

/-- The draft inside one more group with a name, if no other group has it. -/
def openedNamed? (d : Draft) (cs : List Char) : Reading Draft :=
  (groupName? cs).bind fun (name, rest) =>
    if d.names.contains name then none
    else some ({ d with names := name :: d.names }.opened [], rest)

/-- The draft with switches set, or inside one more group with switches. -/
def switched? (d : Draft) (cs : List Char) : Reading Draft :=
  match switches? false [] cs with
  | some ([], ')' :: _) => none
  | some (switches, ')' :: rest) =>
    some ({ d.add (.switches switches) with
      spaced := (switches.get? 'x').getD d.spaced }, rest)
  | some (switches, _ :: rest) => some (d.opened switches, rest)
  | _ => none

/-- The draft behind an opening parenthesis. What is ahead or behind cannot be
asked for. -/
def openGroup? (d : Draft) (cs : List Char) : Reading Draft :=
  match skip d.spaced cs with
  | '?' :: '=' :: _ => none
  | '?' :: '!' :: _ => none
  | '?' :: '<' :: '=' :: _ => none
  | '?' :: '<' :: '!' :: _ => none
  | '?' :: 'P' :: '<' :: cs => d.openedNamed? cs
  | '?' :: '<' :: cs => d.openedNamed? cs
  | '?' :: cs => d.switched? cs
  | cs => some (d.opened [], cs)

/-- The draft behind a closing parenthesis. -/
def closeGroup? (d : Draft) : Option Draft :=
  match d.frames with
  | [] => none
  | frame :: frames =>
    some { d with
      spaced := frame.spaced
      items := .group frame.switches d.inner :: frame.items
      branches := frame.branches
      frames }

/-- The draft with its last item repeated. There must be one, and switches are
none. -/
def repeated? (d : Draft) : Option Draft :=
  match d.items with
  | [] => none
  | .switches _ :: _ => none
  | e :: before => some { d with items := .repeated e :: before }

/-- The draft behind one more part of a text that is not empty. -/
def step? (d : Draft) (c : Char) (cs : List Char) : Reading Draft :=
  match c with
  | '(' => d.openGroup? cs
  | ')' => d.closeGroup?.map fun d => (d, cs)
  | '|' => some (d.nextBranch, cs)
  | '[' => (class? d.spaced (2 * cs.length + 2) cs).map fun (c, rest) => (d.add (.brackets c), rest)
  | '?' | '*' | '+' =>
    d.repeated?.map fun d =>
      match cs with
      | '?' :: rest => (d, rest)
      | cs => (d, cs)
  | '{' => none
  | '\\' => (escape? d.spaced cs).map fun (a, rest) => (d.add (.atom a), rest)
  | '.' => some (d.add (.atom .any), cs)
  | '^' | '$' => some (d.add (.atom .edge), cs)
  | c => some (d.add (.atom (.char c false)), cs)

end Draft

/-- The draft behind a text, in so many steps at most. -/
def readWithin? : Nat → Draft → List Char → Option Draft
  | 0, _, _ => none
  | steps + 1, d, cs =>
    match skip d.spaced cs with
    | [] => some d
    | c :: cs => (d.step? c cs).bind fun (d, cs) => readWithin? steps d cs

/-- **The expression of a text**, if it is one. -/
def read? (cs : List Char) : Option Expr :=
  (readWithin? (cs.length + 1) {} cs).bind fun d => if d.frames.isEmpty then some d.inner else none

end Regex

end Trellis
