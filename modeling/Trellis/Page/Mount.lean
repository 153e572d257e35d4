import Trellis.Page.Span
/-!
# Page — the mount element

The element that scripts take over is the one whose tag carries a given `id`.
The search goes through the page for the attribute as text; a find inside a tag
settles the matter, and one inside a script, a style or a comment is reported
as unsafe if no tag has the attribute.
-/

namespace Trellis

namespace Page

/-- Where the mount element is. -/
structure MountPoint where
  /-- Offset of its tag, or of the attribute's text where it is in no tag. -/
  offset : Nat
  /-- Whether an insertion there is safe. -/
  safe : Bool
  deriving DecidableEq, Repr

/-- The text behind an id without quotes: the id ends at a blank, a slash, the
end of the tag, or the end of the page. -/
def behindBareId? (id cs : List Char) : Option (List Char) :=
  match Text.behind? id cs with
  | some [] => some []
  | some (c :: rest) => if Text.isBlank c || c == '/' || c == '>' then some rest else none
  | none => none

/-- The text behind an id, in quotes of either kind or without. -/
def behindId? (id cs : List Char) : Option (List Char) :=
  (Text.behind? ('"' :: id ++ ['"']) cs).or
    ((Text.behind? ('\'' :: id ++ ['\'']) cs).or (behindBareId? id cs))

/-- The text behind an id with blanks before it, as many of them as leave an id
to find. -/
def behindBlanksAndId? (id : List Char) : List Char → Option (List Char)
  | [] => behindId? id []
  | c :: cs =>
    if Text.isBlank c then (behindBlanksAndId? id cs).or (behindId? id (c :: cs))
    else behindId? id (c :: cs)

/-- The text behind the attribute that gives an element its id: a blank, the
attribute's name, an equals sign and the id. -/
def behindIdAttribute? (id : List Char) : List Char → Option (List Char)
  | blank :: i :: d :: cs =>
    if Text.isBlank blank && Text.sameIgnoringCase [i, d] ['i', 'd'] then
      match Text.trimStart cs with
      | '=' :: cs => behindBlanksAndId? id cs
      | _ => none
    else none
  | _ => none

theorem length_of_behind? {lead cs rest : List Char} (h : Text.behind? lead cs = some rest) :
    rest.length ≤ cs.length := by
  rw [Text.behind?_eq_some_iff.1 h]
  simp

theorem length_of_behindBareId? {id cs rest : List Char} (h : behindBareId? id cs = some rest) :
    rest.length ≤ cs.length := by
  unfold behindBareId? at h
  split at h
  · cases h
    simp
  · next hbehind =>
    have := length_of_behind? hbehind
    split at h
    · cases h
      simp only [List.length_cons] at this
      omega
    · cases h
  · cases h

theorem length_of_behindId? {id cs rest : List Char} (h : behindId? id cs = some rest) :
    rest.length ≤ cs.length := by
  simp only [behindId?, Option.or_eq_some_iff] at h
  rcases h with h | ⟨-, h | ⟨-, h⟩⟩
  · exact length_of_behind? h
  · exact length_of_behind? h
  · exact length_of_behindBareId? h

theorem length_of_behindBlanksAndId? {id cs rest : List Char}
    (h : behindBlanksAndId? id cs = some rest) : rest.length ≤ cs.length := by
  induction cs with
  | nil => exact length_of_behindId? h
  | cons c cs ih =>
    simp only [behindBlanksAndId?] at h
    split at h
    · simp only [Option.or_eq_some_iff] at h
      rcases h with h | ⟨-, h⟩
      · have := ih h
        simp only [List.length_cons]
        omega
      · exact length_of_behindId? h
    · exact length_of_behindId? h

/-- **The attribute takes something.** -/
theorem length_of_behindIdAttribute? {id cs rest : List Char}
    (h : behindIdAttribute? id cs = some rest) : rest.length < cs.length := by
  unfold behindIdAttribute? at h
  split at h
  · next cs =>
    split at h
    · split at h
      · next behind hequals =>
        have hid := length_of_behindBlanksAndId? h
        have htrim : (Text.trimStart cs).length ≤ cs.length := (List.dropWhile_sublist _).length_le
        rw [hequals] at htrim
        simp only [List.length_cons] at *
        omega
      · cases h
    · cases h
  · cases h

/-- The offsets at which the attribute stands in a text, from the left and
without overlaps. -/
def idOffsets (id : List Char) (offset : Nat) (cs : List Char) : List Nat :=
  match cs with
  | [] => []
  | c :: more =>
    match _h : behindIdAttribute? id (c :: more) with
    | some rest => offset :: idOffsets id (offset + Text.width (c :: more) - Text.width rest) rest
    | none => idOffsets id (offset + c.utf8Size) more
termination_by cs.length
decreasing_by
  · exact length_of_behindIdAttribute? _h
  · simp

/-- The mount point that finds lead to, given an unsafe one found before. -/
def mountAmong (p : Page) (unsafeFind : Option MountPoint) : List Nat → Option MountPoint
  | [] => unsafeFind
  | offset :: rest =>
    match p.spanAt? (offset + 1) with
    | none => mountAmong p unsafeFind rest
    | some s =>
      if s.kind = .tag then some ⟨s.start, p.isSafe s.start⟩
      else mountAmong p (unsafeFind.or (some ⟨offset, false⟩)) rest

/-- **The mount point of an id.** The empty id names no element. -/
def mountPoint? (p : Page) (id : String) : Option MountPoint :=
  if id = "" then none else mountAmong p none (idOffsets id.toList 0 p.text)

end Page

end Trellis
