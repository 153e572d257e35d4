import Trellis.Error
import Trellis.Keyed
import Trellis.Text.Quoting
/-!
# Document — the passages of a source

A document is written as passages, `<tag name="value">content</tag>`, with
nothing but blanks and comments between them. Tags are alphabetic, values stand
in quotes of either kind, and a passage runs to the first closing tag that is
literally its own.
-/

namespace Trellis

namespace Document

/-- A passage of a source. -/
structure Passage where
  /-- The tag as written. -/
  tag : String
  /-- The attributes of the opening tag. -/
  attributes : Keyed String
  /-- The text between the tags. -/
  content : String
  /-- The range of the whole passage. -/
  location : Location
  /-- The range of the content. -/
  contentLocation : Location
  deriving Repr

/-- Whether a character starts an attribute's name. -/
def isNameStart (c : Char) : Bool :=
  c.isAlpha || c == '_'

/-- Whether a character continues an attribute's name. -/
def isNameChar (c : Char) : Bool :=
  c.isAlphanum || c == '_' || c == ':' || c == '-'

/-- The attribute that a text starts with: its name, its value, and the rest. -/
def leadingAttribute? : List Char → Option (List Char × List Char × List Char)
  | [] => none
  | c :: cs =>
    if isNameStart c then
      match Text.trimStart (cs.dropWhile isNameChar) with
      | '=' :: behind =>
        match Text.trimStart behind with
        | quote :: behind =>
          if quote = '"' ∨ quote = '\'' then
            (Text.cut? [quote] behind).map fun (value, rest) =>
              (c :: cs.takeWhile isNameChar, value, rest)
          else none
        | [] => none
      | _ => none
    else none

/-- Dropping from the front leaves no more than there was. -/
theorem length_trimStart (cs : List Char) : (Text.trimStart cs).length ≤ cs.length :=
  (List.dropWhile_sublist _).length_le

/-- **An attribute takes something.** -/
theorem length_of_leadingAttribute? {cs name value rest : List Char}
    (h : leadingAttribute? cs = some (name, value, rest)) : rest.length < cs.length := by
  unfold leadingAttribute? at h
  split at h
  · cases h
  · next c cs =>
    split at h
    · split at h
      · next behind hequals =>
        split at h
        · next quote inner hquote =>
          split at h
          · simp only [Option.map_eq_some_iff, Prod.mk.injEq, Prod.exists] at h
            obtain ⟨v, r, hcut, -, -, rfl⟩ := h
            have hname : (cs.dropWhile isNameChar).length ≤ cs.length :=
              (List.dropWhile_sublist _).length_le
            have hfirst := length_trimStart (cs.dropWhile isNameChar)
            have hsecond := length_trimStart behind
            rw [hequals] at hfirst
            rw [hquote] at hsecond
            rw [Text.eq_of_cut? hcut] at hsecond
            simp only [List.length_cons, List.length_append] at *
            omega
          · cases h
        · cases h
      · cases h
    · cases h

/-- The attributes of a tag, read behind the tag's name. The text passed over
since the last attribute comes reversed. -/
def attributesFrom (tag : String) (gap : List Char) (found : Keyed String) (cs : List Char) :
    Except TagFault (Keyed String) :=
  let unexpected : TagFault := .unexpectedText (String.ofList (Text.trim gap.reverse)) tag
  match _h : leadingAttribute? cs with
  | some (name, value, rest) =>
    let name := String.ofList name
    if !Text.isBlankText gap then .error unexpected
    else if found.contains name then .error (.repeatedAttribute name tag)
    else attributesFrom tag [] (found.insert name (String.ofList value)) rest
  | none =>
    match cs with
    | [] => if Text.isBlankText gap then .ok found else .error unexpected
    | c :: cs => attributesFrom tag (c :: gap) found cs
termination_by cs.length
decreasing_by
  · exact length_of_leadingAttribute? _h
  · simp

/-- The closing tag of a passage. -/
def closingTag (tag : List Char) : List Char :=
  '<' :: '/' :: tag ++ ['>']

/-- A passage with the text it takes and the rest behind it. -/
structure Taken where
  /-- The passage. -/
  passage : Passage
  /-- Its text, from `<` to `>`. -/
  written : List Char
  /-- The text behind it. -/
  rest : List Char

/-- The passage that starts at a place, read behind its `<`. -/
def takePassage (place : Location) (cs : List Char) : Except SourceError Taken :=
  let malformed (fault : TagFault) : Except SourceError Taken :=
    .error { fault := .malformedTag fault, location := place }
  match Text.Quoting.bare.cut? Text.isBlank cs with
  | none => malformed .openTag
  | some (inner, rest) =>
    let name := inner.takeWhile Char.isAlpha
    let behind := inner.dropWhile Char.isAlpha
    let tag := String.ofList name
    if name.isEmpty || !(behind.head?.all Text.isBlank) then malformed .nameNotAlphabetic
    else
      match attributesFrom tag [] [] behind with
      | .error fault => malformed fault
      | .ok attributes =>
        match Text.cut? (closingTag name) rest with
        | none => .error { fault := .unclosedSection tag, location := place }
        | some (content, rest) =>
          let first := '<' :: inner ++ ['>']
          let contentPlace := place.after first
          let contentEnd := contentPlace.after content
          let passageEnd := contentEnd.after (closingTag name)
          let passage : Passage :=
            { tag, attributes
              content := String.ofList content
              location := place.upTo passageEnd.offset
              contentLocation := contentPlace.upTo contentEnd.offset }
          .ok ⟨passage, first ++ content ++ closingTag name, rest⟩

/-- **A passage's text and the rest make up the text.** -/
theorem eq_of_takePassage {place : Location} {cs : List Char} {taken : Taken}
    (h : takePassage place cs = .ok taken) : '<' :: cs = taken.written ++ taken.rest := by
  unfold takePassage at h
  dsimp only at h
  split at h
  · cases h
  · next inner rest hcut =>
    split at h
    · cases h
    · split at h
      · cases h
      · split at h
        · cases h
        · next content behind hclose =>
          cases h
          simp [Text.Quoting.eq_of_cut? hcut, Text.eq_of_cut? hclose]

/-- The passages of a text that starts at a place. -/
def passagesFrom (place : Location) (cs : List Char) : Except SourceError (List Passage) :=
  let place := place.after (cs.takeWhile Text.isBlank)
  match _hrest : cs.dropWhile Text.isBlank with
  | [] => .ok []
  | c :: rest =>
    if Text.startsWith "<!--".toList (c :: rest) then
      match _hcut : Text.cut? "-->".toList (c :: rest) with
      | none => .error { fault := .malformedTag .openComment, location := place }
      | some (comment, behind) => passagesFrom (place.after (comment ++ "-->".toList)) behind
    else if c = '<' then
      match _htaken : takePassage place rest with
      | .error e => .error e
      | .ok taken =>
        match passagesFrom (place.after taken.written) taken.rest with
        | .error e => .error e
        | .ok more => .ok (taken.passage :: more)
    else .error { fault := .strayContent, location := place }
termination_by cs.length
decreasing_by
  all_goals
    have hle : (cs.dropWhile Text.isBlank).length ≤ cs.length :=
      (List.dropWhile_sublist _).length_le
  · rw [_hrest, Text.eq_of_cut? _hcut] at hle
    simp only [List.length_append] at hle
    have : 0 < "-->".toList.length := by decide
    omega
  · have := congrArg List.length (eq_of_takePassage _htaken)
    rw [_hrest] at hle
    have hpos : 0 < taken.written.length := by
      have hhead := eq_of_takePassage _htaken
      unfold takePassage at _htaken
      dsimp only at _htaken
      split at _htaken
      · cases _htaken
      · split at _htaken
        · cases _htaken
        · split at _htaken
          · cases _htaken
          · split at _htaken
            · cases _htaken
            · cases _htaken
              simp
    simp only [List.length_append, List.length_cons] at this hle
    omega

/-- **The passages of a source.** -/
def passages (source : String) : Except SourceError (List Passage) :=
  passagesFrom .start source.toList

/-- The tags that a document may have. -/
def tags : List (List Char) :=
  ["data".toList, "schema".toList, "template".toList, "logic".toList]

/-- **Whether a source is a document** rather than bare markup: behind blanks
it starts with one of the tags, followed by a blank or by its end. -/
def isDocumentSource (source : String) : Bool :=
  match Text.trimStart source.toList with
  | '<' :: cs =>
    tags.any fun tag =>
      match Text.behind? tag cs with
      | some (c :: _) => Text.isBlank c || c == '>'
      | _ => false
  | _ => false

end Document

end Trellis
