import Trellis.Text.Letter
/-!
# Regex — expressions

Regular expressions as they are written, as far as their form decides whether
they can be used: what a sequence holds, which switches are set, and how deep
the parts lie inside one another. An expression over bytes, with the switch `u`
off, may not take a part of a character, and an expression over characters may
not ask for the edges of words.
-/

namespace Trellis

namespace Regex

/-- One character's worth of an expression. -/
inductive Atom where
  | char (c : Char) (asByte : Bool)
  | any
  | edge
  | wordEdge
  | property (name : Char)
  | kind (negated : Bool)
  deriving DecidableEq, Repr

/-- What stands in brackets. -/
inductive Class where
  | atom (a : Atom)
  | range (low high : Char)
  | named (negated : Bool)
  | brackets (negated : Bool) (inside : Class)
  | union (items : List Class)
  | operation (left right : Class)

instance : Inhabited Class := ⟨.union []⟩

/-- Switches by their letters, each on or off. -/
abbrev Switches := List (Char × Bool)

/-- What a switch is set to. -/
def Switches.get? (switches : Switches) (letter : Char) : Option Bool :=
  (switches.find? fun s => s.1 == letter).map Prod.snd

/-- An expression. -/
inductive Expr where
  | atom (a : Atom)
  | brackets (c : Class)
  | switches (s : Switches)
  | repeated (e : Expr)
  | group (s : Switches) (e : Expr)
  | choice (branches : List Expr)
  | sequence (items : List Expr)

instance : Inhabited Expr := ⟨.sequence []⟩

/-- Some items of a class; a single one stands for itself. -/
def Class.ofItems : List Class → Class
  | [item] => item
  | items => .union items

/-- Some items of a sequence; a single one stands for itself. -/
def Expr.ofItems : List Expr → Expr
  | [item] => item
  | items => .sequence items

/-- Some branches; a single one stands for itself. -/
def Expr.ofBranches : List Expr → Expr
  | [branch] => branch
  | branches => .choice branches

mutual

/-- How deep a class nests. -/
def Class.depth : Class → Nat
  | .atom _ => 0
  | .range _ _ => 0
  | .named _ => 0
  | .brackets _ inside => inside.depth + 1
  | .union [] => 0
  | .union items => Class.greatestDepth items + 1
  | .operation left right => max left.depth right.depth + 1

/-- The greatest depth of some classes. -/
def Class.greatestDepth : List Class → Nat
  | [] => 0
  | c :: rest => max c.depth (Class.greatestDepth rest)

end

mutual

/-- **How deep an expression nests.** Brackets, groups, repetitions, choices and
sequences each count as one level. -/
def Expr.depth : Expr → Nat
  | .atom _ => 0
  | .switches _ => 0
  | .brackets c => c.depth + 1
  | .repeated e => e.depth + 1
  | .group _ e => e.depth + 1
  | .choice branches => Expr.greatestDepth branches + 1
  | .sequence [] => 0
  | .sequence items => Expr.greatestDepth items + 1

/-- The greatest depth of some expressions. -/
def Expr.greatestDepth : List Expr → Nat
  | [] => 0
  | e :: rest => max e.depth (Expr.greatestDepth rest)

end

/-- How deep an expression may nest. -/
def deepest : Nat := 250

/-- Whether an expression nests too deep. -/
def Expr.isTooDeep (e : Expr) : Bool :=
  deepest < e.depth

/-- Whether a character is one of the first hundred and twenty-eight. -/
def isPlain (c : Char) : Bool :=
  c.toNat < 0x80

/-- Whether a letter names a general category of characters. -/
def isCategory (name : Char) : Bool :=
  "clmnpsz".toList.contains name.toLower

/-- Whether an atom can be used over characters, or else over bytes. -/
def Atom.isUsable (overChars : Bool) : Atom → Bool
  | .char c asByte => overChars || !asByte || isPlain c
  | .any => overChars
  | .edge => true
  | .wordEdge => !overChars
  | .property name => overChars && isCategory name
  | .kind negated => overChars || !negated

mutual

/-- Whether a class can be used over characters, or else over bytes. -/
def Class.isUsable (overChars : Bool) : Class → Bool
  | .atom (.char c _) => overChars || isPlain c
  | .atom a => a.isUsable overChars
  | .range low high => overChars || (isPlain low && isPlain high)
  | .named negated => overChars || !negated
  | .brackets negated inside => (overChars || !negated) && inside.isUsable overChars
  | .union items => Class.areUsable overChars items
  | .operation left right => left.isUsable overChars && right.isUsable overChars

/-- Whether all of some classes can be used. -/
def Class.areUsable (overChars : Bool) : List Class → Bool
  | [] => true
  | c :: rest => c.isUsable overChars && Class.areUsable overChars rest

end

mutual

/-- Whether an expression can be used: if so, whether the ones behind it are over
characters. A group's switches end with it. -/
def Expr.checked (overChars : Bool) : Expr → Option Bool
  | .atom a => if a.isUsable overChars then some overChars else none
  | .brackets c => if c.isUsable overChars then some overChars else none
  | .switches s => some ((s.get? 'u').getD overChars)
  | .repeated e => e.checked overChars
  | .group s e => (e.checked ((s.get? 'u').getD overChars)).map fun _ => overChars
  | .choice branches => Expr.allChecked overChars branches
  | .sequence items => Expr.allChecked overChars items

/-- Whether expressions can be used one behind the other. -/
def Expr.allChecked (overChars : Bool) : List Expr → Option Bool
  | [] => some overChars
  | e :: rest => (e.checked overChars).bind fun overChars => Expr.allChecked overChars rest

end

/-- **Whether an expression can be used.** -/
def Expr.isUsable (e : Expr) : Bool :=
  !e.isTooDeep && (e.checked true).isSome

end Regex

end Trellis
