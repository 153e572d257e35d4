/-!
# Text — cutting and measuring

Cuts of a character list at a needle, at a byte offset and at line ends.
Offsets count the bytes of the UTF-8 form, so a cut at an offset exists
exactly when the offset is a character boundary: `cleave?`.
-/

namespace Trellis

namespace Text

/-- Number of bytes of the UTF-8 form. -/
def width : List Char → Nat
  | [] => 0
  | c :: cs => c.utf8Size + width cs

@[simp] theorem width_nil : width [] = 0 := rfl

@[simp] theorem width_cons (c : Char) (cs : List Char) :
    width (c :: cs) = c.utf8Size + width cs := rfl

@[simp] theorem width_append (a b : List Char) : width (a ++ b) = width a + width b := by
  induction a with
  | nil => simp
  | cons c a ih => simp [ih, Nat.add_assoc]

/-- The text behind a lead that it starts with. -/
def behind? : List Char → List Char → Option (List Char)
  | [], cs => some cs
  | _ :: _, [] => none
  | l :: lead, c :: cs => if l = c then behind? lead cs else none

/-- The text that starts with a lead is the lead and what is behind it. -/
theorem behind?_eq_some_iff {lead cs rest : List Char} :
    behind? lead cs = some rest ↔ cs = lead ++ rest := by
  induction lead generalizing cs with
  | nil => simp [behind?, eq_comm]
  | cons l lead ih =>
    cases cs with
    | nil => simp [behind?]
    | cons c cs =>
      by_cases h : l = c
      · simp [behind?, h, ih]
      · simp [behind?, h, Ne.symm h]

/-- Whether a text starts with a lead. -/
def startsWith (lead cs : List Char) : Bool :=
  (behind? lead cs).isSome

/-- The parts before and after the first occurrence of a needle. -/
def cut? (needle : List Char) : List Char → Option (List Char × List Char)
  | [] => if needle.isEmpty then some ([], []) else none
  | c :: cs =>
    match behind? needle (c :: cs) with
    | some rest => some ([], rest)
    | none => (cut? needle cs).map fun (before, rest) => (c :: before, rest)

/-- **A cut loses nothing but the needle.** -/
theorem eq_of_cut? {needle cs before rest : List Char} (h : cut? needle cs = some (before, rest)) :
    cs = before ++ needle ++ rest := by
  induction cs generalizing before with
  | nil =>
    simp only [cut?] at h
    split at h <;> simp_all
  | cons c cs ih =>
    simp only [cut?] at h
    split at h
    · next found hfound =>
      obtain ⟨rfl, rfl⟩ := Prod.mk.inj (Option.some.inj h)
      simpa using behind?_eq_some_iff.1 hfound
    · simp only [Option.map_eq_some_iff, Prod.mk.injEq, Prod.exists] at h
      obtain ⟨b, r, hcut, rfl, rfl⟩ := h
      simp [ih hcut]

/-- The parts before and after a byte offset; none inside a character or
past the end. -/
def cleave? : Nat → List Char → Option (List Char × List Char)
  | 0, cs => some ([], cs)
  | _ + 1, [] => none
  | n, c :: cs =>
    if c.utf8Size ≤ n then
      (cleave? (n - c.utf8Size) cs).map fun (before, rest) => (c :: before, rest)
    else none

/-- The text between two byte offsets. -/
def slice? (start stop : Nat) (cs : List Char) : Option (List Char) :=
  (cleave? start cs).bind fun (_, rest) => (cleave? (stop - start) rest).map Prod.fst

/-- Whether a byte offset is a character boundary of the text, its end
included. -/
def isBoundary (cs : List Char) (offset : Nat) : Bool :=
  (cleave? offset cs).isSome

/-- The pieces of a text between the occurrences of a separator. -/
def pieces (separator : Char) (cs : List Char) : List (List Char) :=
  go [] cs
where
  /-- The pieces of the rest, the first one led by the reversed `piece`. -/
  go (piece : List Char) : List Char → List (List Char)
    | [] => [piece.reverse]
    | c :: cs => if c = separator then piece.reverse :: go [] cs else go (c :: piece) cs

/-- The lines of a text. A line ends at a line feed, which takes one carriage
return before it along, and nothing after the last line feed is no line. -/
def lines (cs : List Char) : List (List Char) :=
  go [] cs
where
  /-- The lines of the rest, the first one led by the reversed `line`. -/
  go (line : List Char) : List Char → List (List Char)
    | [] => if line.isEmpty then [] else [line.reverse]
    | c :: cs =>
      if c = '\n' then (if line.head? = some '\r' then line.tail else line).reverse :: go [] cs
      else go (c :: line) cs

/-- The text in ASCII lower case. -/
def lowered (s : String) : String :=
  String.ofList (s.toList.map Char.toLower)

/-- The strings joined with a comma and a space between them. -/
def listed (names : List String) : String :=
  ", ".intercalate names

/-- The elements without later repetitions. -/
def distinct (names : List String) : List String :=
  names.foldl (fun seen name => if seen.contains name then seen else seen ++ [name]) []

end Text

end Trellis
