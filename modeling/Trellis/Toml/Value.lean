/-!
# Toml — tables

What a settings file says: values under keys, in tables that headers and dotted
keys open. Each table remembers how it came about, because that decides who may
still add to it: a header may complete a table that only longer headers
mentioned, a dotted key may add only to tables that dotted keys made, and a
table written in place is complete.
-/

namespace Trellis

namespace Toml

/-- How a table came about. -/
inductive Origin where
  | mentioned
  | header
  | dotted
  | complete
  deriving DecidableEq, Repr

/-- A value of a settings file. -/
inductive Value where
  | string (s : String)
  | integer (n : Int)
  | float
  | boolean (b : Bool)
  | moment
  | array (items : List Value)
  | table (origin : Origin) (entries : List (String × Value))
  | tables (elements : List (List (String × Value)))

instance : Inhabited Value := ⟨.float⟩

/-- The entries of a table. -/
abbrev Entries := List (String × Value)

namespace Entries

/-- The value under a key. -/
def get? (entries : Entries) (key : String) : Option Value :=
  (entries.find? fun e => e.1 == key).map Prod.snd

/-- The entries with a value under a key, in the place of the one that is
there. -/
def put (entries : Entries) (key : String) (value : Value) : Entries :=
  if entries.any fun e => e.1 == key then
    entries.map fun e => if e.1 == key then (key, value) else e
  else entries ++ [(key, value)]

/-- Puts a value under a path of keys, opening tables on the way. A key that
is taken, or a last table that dotted keys did not make, refuses it. -/
def putAt? (entries : Entries) (key : String) (value : Value) : List String → Option Entries
  | [] => if (get? entries key).isSome then none else some (put entries key value)
  | step :: path =>
    match get? entries step with
    | none => (putAt? [] key value path).map fun inner => put entries step (.table .dotted inner)
    | some (.table .dotted inner) =>
      (putAt? inner key value path).map fun inner => put entries step (.table .dotted inner)
    | some (.table .mentioned inner) =>
      if path.isEmpty then none
      else (putAt? inner key value path).map fun inner => put entries step (.table .mentioned inner)
    | some (.tables elements) =>
      match elements.reverse with
      | last :: before =>
        if path.isEmpty then none
        else
          (putAt? last key value path).map fun last =>
            put entries step (.tables (last :: before).reverse)
      | [] => none
    | some _ => none

/-- Changes the table that a path of a header leads to; tables on the way are
opened as mentioned, and a list of tables stands for its last element. -/
def changeAt? (change : Entries → Option Entries) (entries : Entries) :
    List String → Option Entries
  | [] => change entries
  | step :: path =>
    match get? entries step with
    | none =>
      (changeAt? change [] path).map fun inner => put entries step (.table .mentioned inner)
    | some (.table .complete _) => none
    | some (.table origin inner) =>
      (changeAt? change inner path).map fun inner => put entries step (.table origin inner)
    | some (.tables elements) =>
      match elements.reverse with
      | last :: before =>
        (changeAt? change last path).map fun last =>
          put entries step (.tables (last :: before).reverse)
      | [] => none
    | some _ => none

/-- Opens the table of a header. -/
def openTable? (key : String) (entries : Entries) : Option Entries :=
  match get? entries key with
  | none => some (put entries key (.table .header []))
  | some (.table .mentioned inner) => some (put entries key (.table .header inner))
  | some _ => none

/-- Opens one more table of a header for a list of tables. -/
def openElement? (key : String) (entries : Entries) : Option Entries :=
  match get? entries key with
  | none => some (put entries key (.tables [[]]))
  | some (.tables elements) => some (put entries key (.tables (elements ++ [[]])))
  | some _ => none

end Entries

end Toml

end Trellis
