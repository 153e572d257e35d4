import Trellis.Json.Value
import Trellis.Text.Cut
/-!
# Json — merging data

Two objects are merged field by field, the incoming one winning; anything else
is replaced. A deep merge goes on below a field that both have, a shallow one
replaces it.
-/

namespace Trellis

namespace Json

/-- How incoming data combines with the data that is there. -/
inductive Merge where
  | deep
  | shallow
  deriving DecidableEq, Repr

namespace Merge

/-- The word for a way of merging. -/
def name : Merge → String
  | deep => "deep"
  | shallow => "shallow"

/-- The way of merging that a word stands for, whatever its case and the blanks
around it. -/
def ofName? (word : String) : Option Merge :=
  let word := Text.lowered (Text.trimmed word)
  if word = "deep" then some deep
  else if word = "shallow" then some shallow
  else none

mutual

/-- **The data after merging incoming data into it.** -/
def apply (merge : Merge) (target : Value) : Value → Value
  | .object incoming =>
    match target with
    | .object fields => .object (applyFields merge fields incoming)
    | _ => .object incoming
  | incoming => incoming

/-- The fields after merging incoming fields into them, one by one. -/
def applyFields (merge : Merge) (fields : Fields) : List (String × Value) → Fields
  | [] => fields
  | (key, incoming) :: rest =>
    let merged :=
      match merge, fields.get? key with
      | deep, some slot => apply merge slot incoming
      | _, _ => incoming
    applyFields merge (fields.insert key merged) rest

end

end Merge

end Json

end Trellis
