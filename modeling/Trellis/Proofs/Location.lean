import Trellis.Location
import Trellis.Proofs.Text.Cut
/-!
# Location — places that are walked to and places that are looked up

A reader moves its place along the text that it reads. What the place of an offset
is can be said without any reader: count the line feeds before it, and the
characters behind the last of them (`locate?`). Both are the same
(`locate?_width`), so whoever starts at the place where a text stands in a source
and walks along the text is at the places of that source all the way (`Holds`).
-/

namespace Trellis

namespace Location

variable {source : String} {place l : Location} {a b cs : List Char}

/-- **The place of a byte offset.** The line is told by the line feeds before it,
the column by the characters behind the last of these. An offset inside of a
character or past the end of the source has no place. -/
def locate? (source : List Char) (offset : Nat) : Option Location :=
  (Text.cleave? offset source).map fun (before, _) =>
    { line := before.count '\n' + 1
      column := (before.reverse.takeWhile fun c => c ≠ '\n').length + 1
      offset
      endOffset := offset }

/-- That a location starts at a character of a source, or at its end, in the line
and the column of its offset. -/
def IsPlaceIn (source : String) (l : Location) : Prop :=
  locate? source.toList l.offset = some (l.upTo l.offset)

/-- **That a location is the range of a text in a source.** -/
structure Covers (source : String) (l : Location) (text : List Char) : Prop where
  place : IsPlaceIn source l
  slice : Text.slice? l.offset l.endOffset source.toList = some text

/-- That a text stands in a source from a place on. -/
def Holds (source : String) (place : Location) (cs : List Char) : Prop :=
  ∃ before behind, source.toList = before ++ (cs ++ behind) ∧ place = start.after before

/-! ## Walking and looking up -/

theorem after_cons (l : Location) (c : Char) (cs : List Char) :
    l.after (c :: cs) = (l.step c).after cs :=
  rfl

/-- **The place behind a text is told by the line feeds in it.** -/
theorem start_after (before : List Char) :
    start.after before =
      { line := before.count '\n' + 1
        column := (before.reverse.takeWhile fun c => c ≠ '\n').length + 1
        offset := Text.width before
        endOffset := Text.width before } := by
  -- a line feed resets the column, so the last character is the one to look at first
  induction before using List.reverseRecOn with
  | nil => rfl
  | append_singleton before c ih =>
    rw [after_append, ih, after_cons, after_nil, step]
    by_cases hc : c = '\n'
    · simp [hc]
    · simp [hc, List.count_append]

/-- **Looking up finds the place that is walked to.** -/
theorem locate?_width (before behind : List Char) :
    locate? (before ++ behind) (Text.width before) = some (start.after before) := by
  rw [locate?, Text.cleave?_width, start_after]
  rfl

/-! ## Texts that stand in a source -/

theorem holds_start (source : String) : Holds source start source.toList :=
  ⟨[], [], by simp, rfl⟩

theorem Holds.left (h : Holds source place (a ++ b)) : Holds source place a := by
  obtain ⟨before, behind, hsource, rfl⟩ := h
  exact ⟨before, b ++ behind, by rw [hsource, List.append_assoc], rfl⟩

theorem Holds.right (h : Holds source place (a ++ b)) : Holds source (place.after a) b := by
  obtain ⟨before, behind, hsource, rfl⟩ := h
  refine ⟨before ++ a, behind, ?_, (after_append start before a).symm⟩
  rw [hsource, List.append_assoc, List.append_assoc]

/-- The place takes up no range. -/
theorem Holds.upTo_offset (h : Holds source place cs) : place.upTo place.offset = place := by
  obtain ⟨before, behind, -, rfl⟩ := h
  rw [start_after]
  rfl

/-- **Where a text stands is a place of the source.** -/
theorem Holds.isPlaceIn (h : Holds source place cs) (stop : Nat) :
    IsPlaceIn source (place.upTo stop) := by
  have hpoint := h.upTo_offset
  obtain ⟨before, behind, hsource, rfl⟩ := h
  have hoffset : (start.after before).offset = Text.width before := by rw [start_after]
  have hlocated := locate?_width before (cs ++ behind)
  rw [← hsource, ← hoffset, ← hpoint] at hlocated
  exact hlocated

theorem Holds.isPlaceIn_self (h : Holds source place cs) : IsPlaceIn source place := by
  rw [← h.upTo_offset]
  exact h.isPlaceIn place.offset

/-- **Walking along a text that stands in a source covers it.** -/
theorem Holds.covers (h : Holds source place cs) :
    Covers source (place.upTo (place.after cs).offset) cs := by
  refine ⟨h.isPlaceIn _, ?_⟩
  obtain ⟨before, behind, hsource, rfl⟩ := h
  have hoffset : (start.after before).offset = Text.width before := by rw [start_after]
  have hslice := Text.slice?_width before cs behind
  rw [← hsource, ← hoffset, ← offset_after] at hslice
  exact hslice

/-- **A range covers a text that stands in the source.** -/
theorem Covers.holds (h : Covers source l cs) : Holds source (l.upTo l.offset) cs := by
  obtain ⟨⟨before, rest⟩, hcleave, hplace⟩ := Option.map_eq_some_iff.1 h.place
  have hslice := h.slice
  rw [Text.slice?, hcleave] at hslice
  obtain ⟨⟨taken, behind⟩, hrest, rfl⟩ := Option.map_eq_some_iff.1 hslice
  obtain ⟨hsource, hwidth⟩ := Text.eq_of_cleave? hcleave
  refine ⟨before, behind, ?_, ?_⟩
  · rw [hsource, (Text.eq_of_cleave? hrest).1]
  · rw [start_after, hwidth, ← hplace]

/-! ## Places at characters -/

/-- **That a place is at a character of the source** that does not end a line. -/
def AtCharacter (source : String) (place : Location) : Prop :=
  ∃ c, c ≠ '\n' ∧ Holds source (place.upTo place.offset) [c]

/-- Where a text stands that begins with such a character, there is one. -/
theorem Holds.atCharacter {c : Char} (h : Holds source place (c :: cs)) (hc : c ≠ '\n') :
    AtCharacter source place := by
  have hfirst : Holds source place ([c] ++ cs) := h
  refine ⟨c, hc, ?_⟩
  rw [hfirst.left.upTo_offset]
  exact hfirst.left

/-- What covers a text that begins with such a character is at one. -/
theorem Covers.atCharacter {c : Char} (h : Covers source l (c :: cs)) (hc : c ≠ '\n') :
    AtCharacter source l :=
  h.holds.atCharacter hc

theorem AtCharacter.isPlaceIn (h : AtCharacter source place) : IsPlaceIn source place := by
  obtain ⟨c, -, hheld⟩ := h
  exact hheld.isPlaceIn_self

/-- A character has something behind it: it is not where the source ends. -/
theorem AtCharacter.ne_end (h : AtCharacter source place) :
    place ≠ start.after source.toList := by
  rintro rfl
  obtain ⟨c, -, before, behind, hsource, hplace⟩ := h
  have hoffset := congrArg Location.offset hplace
  have hsame : (start.after source.toList).offset = (start.after before).offset := hoffset
  rw [offset_after, offset_after, hsource] at hsame
  simp only [Text.width_append, Text.width_cons] at hsame
  have hpos := c.utf8Size_pos
  omega

end Location

end Trellis
