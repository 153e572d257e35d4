import Trellis.Proofs.Document.Attributes
/-!
# Document — how a passage is laid out

A passage is its opening tag, its content and its closing tag. A `Layout` says
what these are made of, and what the reader of a passage takes from a text is
the layout that the text starts with (`takePassage_eq_ok_iff`): a layout is read
back as it was put down, and nothing else is taken for a passage.
-/

namespace Trellis

namespace Document

open Text.Quoting

variable {place : Location} {cs tag rest : List Char} {taken : Taken}

/-- **What a passage is made of.** -/
structure Layout where
  /-- The tag. -/
  tag : List Char
  /-- The text of the opening tag behind the tag's name. -/
  attributes : List Char
  /-- The names and values that stand in this text. -/
  entries : List (String × String)
  /-- The text between the tags. -/
  content : List Char

namespace Layout

/-- The opening tag. -/
def opening (l : Layout) : List Char :=
  '<' :: (l.tag ++ l.attributes ++ ['>'])

/-- The whole text. -/
def written (l : Layout) : List Char :=
  l.opening ++ l.content ++ closingTag l.tag

theorem written_append (l : Layout) (rest : List Char) :
    l.written ++ rest =
      '<' :: (l.tag ++ (l.attributes ++ '>' :: (l.content ++ (closingTag l.tag ++ rest)))) := by
  simp [written, opening]

/-- The passage that the text is, from a place on. -/
def passage (l : Layout) (place : Location) : Passage where
  tag := String.ofList l.tag
  attributes := Keyed.ofList l.entries
  content := String.ofList l.content
  location := place.upTo (place.offset + Text.width l.written)
  contentLocation :=
    (place.after l.opening).upTo (place.offset + Text.width l.opening + Text.width l.content)

/-- A tag of letters, attributes apart from it and each with a name of its own,
and content in which the closing tag does not occur. -/
structure Legal (l : Layout) : Prop where
  named : l.tag ≠ []
  alphabetic : l.tag.all Char.isAlpha = true
  apart : l.attributes.head?.all Text.isBlank = true
  attributes : Attributes l.attributes l.entries
  distinct : (l.entries.map Prod.fst).Nodup
  closes : ¬ closingTag l.tag <:+: l.content

end Layout

/-! ## Tags -/

theorem ne_of_isAlpha {c : Char} (h : c.isAlpha = true) : c ≠ '>' ∧ c ≠ '=' ∧ c ≠ '<' := by
  refine ⟨?_, ?_, ?_⟩
  all_goals
    rintro rfl
    revert h
    decide

/-- A blank ends a tag's name. -/
theorem isAlpha_of_isBlank {c : Char} (h : Text.isBlank c = true) : c.isAlpha = false := by
  have hstart := isNameStart_of_isBlank h
  rw [isNameStart, Bool.or_eq_false_iff] at hstart
  exact hstart.1

/-- Closing tags cannot overlap. -/
theorem unbordered_closingTag (h : tag.all Char.isAlpha = true) :
    Text.Unbordered (closingTag tag) := by
  refine Text.unbordered_cons ?_
  intro hmem
  rcases List.mem_append.1 hmem with hmem | hmem
  · rcases List.mem_cons.1 hmem with heq | hmem
    · cases heq
    · exact (ne_of_isAlpha (List.all_eq_true.1 h _ hmem)).2.2 rfl
  · cases List.mem_singleton.1 hmem

/-- The name of a tag ends where its attributes begin. -/
theorem span_tag {attributes : List Char} (htag : tag.all Char.isAlpha = true)
    (hapart : attributes.head?.all Text.isBlank = true) :
    (tag ++ attributes).takeWhile Char.isAlpha = tag ∧
      (tag ++ attributes).dropWhile Char.isAlpha = attributes := by
  refine Text.span_append htag fun c hc => ?_
  rw [Option.mem_def.1 hc] at hapart
  exact isAlpha_of_isBlank hapart

/-! ## The reader of a passage -/

/-- A layout is no comment. -/
theorem Layout.Legal.startsWith_comment {l : Layout} (hl : l.Legal) (rest : List Char) :
    Text.startsWith "<!--".toList (l.written ++ rest) = false := by
  rw [l.written_append]
  cases htag : l.tag with
  | nil => exact absurd htag hl.named
  | cons c tag =>
    have hletter : c.isAlpha = true := by
      have halpha := hl.alphabetic
      rw [htag, List.all_cons, Bool.and_eq_true] at halpha
      exact halpha.1
    have hc : '!' ≠ c := by
      rintro rfl
      revert hletter
      decide
    simp [Text.startsWith, Text.behind?, hc]

/-- A layout is read back. -/
theorem Layout.Legal.takePassage_eq {l : Layout} (hl : l.Legal) (place : Location)
    (rest : List Char) :
    takePassage place (l.tag ++ (l.attributes ++ '>' :: (l.content ++ (closingTag l.tag ++ rest)))) =
      .ok ⟨l.passage place, l.written, rest⟩ := by
  have hletters : Passes Text.isBlank l.tag := passes_of_forall fun c hc =>
    have hc := ne_of_isAlpha (List.all_eq_true.1 hl.alphabetic c hc)
    ⟨hc.1, hc.2.1⟩
  have hcut : bare.cut? Text.isBlank
      (l.tag ++ (l.attributes ++ '>' :: (l.content ++ (closingTag l.tag ++ rest)))) =
      some (l.tag ++ l.attributes, l.content ++ (closingTag l.tag ++ rest)) := by
    rw [← List.append_assoc, hletters.append hl.attributes.passes]
    simp [cut?, ends]
  obtain ⟨htake, hdrop⟩ := span_tag hl.alphabetic hl.apart
  have hnamed : l.tag.isEmpty = false := by
    rw [List.isEmpty_eq_false_iff]
    exact hl.named
  have hattributes : attributesFrom (String.ofList l.tag) [] [] l.attributes =
      .ok (Keyed.ofList l.entries) :=
    attributesFrom_eq_ok_iff.2 ⟨l.entries, hl.attributes, hl.distinct, rfl⟩
  have hclose : Text.cut? (closingTag l.tag) (l.content ++ (closingTag l.tag ++ rest)) =
      some (l.content, rest) :=
    Text.cut?_of_absent (unbordered_closingTag hl.alphabetic) hl.closes rest
  unfold takePassage
  simp only [hcut, htake, hdrop, hnamed, hl.apart, hattributes, hclose, Bool.not_true, Bool.or_self,
    Bool.false_eq_true, if_false]
  simp [Layout.passage, Layout.written, Layout.opening, Location.offset_after, Nat.add_assoc]

/-- **A passage is taken exactly where a layout stands**, and the layout is what is
taken. -/
theorem takePassage_eq_ok_iff :
    takePassage place cs = .ok taken ↔
      ∃ l : Layout, l.Legal ∧ ∃ rest, '<' :: cs = l.written ++ rest ∧
        taken = ⟨l.passage place, l.written, rest⟩ := by
  constructor
  · intro h
    have hall := eq_of_takePassage h
    unfold takePassage at h
    dsimp only at h
    split at h
    · cases h
    · next inner behind hinner =>
      split at h
      · cases h
      · next hnamed =>
        split at h
        · cases h
        · next attributes hattributes =>
          split at h
          · cases h
          · next content rest hclose =>
            cases h
            obtain ⟨entries, hentries, hdistinct, rfl⟩ := attributesFrom_eq_ok_iff.1 hattributes
            obtain ⟨hname, hapart⟩ : (inner.takeWhile Char.isAlpha).isEmpty = false ∧
                (inner.dropWhile Char.isAlpha).head?.all Text.isBlank = true := by
              simpa using hnamed
            have hsplit : inner.takeWhile Char.isAlpha ++ inner.dropWhile Char.isAlpha = inner :=
              List.takeWhile_append_dropWhile
            let l : Layout :=
              ⟨inner.takeWhile Char.isAlpha, inner.dropWhile Char.isAlpha, entries, content⟩
            refine ⟨l, ⟨?_, ?_, hapart, hentries, hdistinct, ?_⟩, rest, ?_, ?_⟩
            · exact List.isEmpty_eq_false_iff.1 hname
            · exact List.all_takeWhile
            · exact Text.absent_of_cut? (List.cons_ne_nil _ _) hclose
            · simpa [l, Layout.written, Layout.opening, hsplit] using hall
            · simp [l, Layout.passage, Layout.written, Layout.opening, hsplit,
                Location.offset_after, Nat.add_assoc]
  · rintro ⟨l, hl, rest, hcs, rfl⟩
    rw [l.written_append, List.cons.injEq] at hcs
    rw [hcs.2]
    exact hl.takePassage_eq place rest

/-- What keeps a passage from being taken is reported at its start. -/
theorem location_of_takePassage {e : SourceError} (h : takePassage place cs = .error e) :
    e.location = place := by
  unfold takePassage at h
  dsimp only at h
  split at h
  · cases h
    rfl
  · split at h
    · cases h
      rfl
    · split at h
      · cases h
        rfl
      · split at h
        · cases h
          rfl
        · cases h

end Document

end Trellis
