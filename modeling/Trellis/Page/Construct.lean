import Trellis.Text.Cut
import Trellis.Text.Quoting
/-!
# Page — the constructs that must stay whole

A page is text with constructs in it that an insertion must not split:
comments, tags, and the elements whose content is no markup. `construct?` says
whether a text starts with one and how far it reaches. It looks at nothing
behind the end of a construct that is closed; one without its end takes the
rest of the page.
-/

namespace Trellis

namespace Page

/-- What a stretch of a page is. -/
inductive SpanKind where
  | plain
  | script
  | style
  | textElement
  | comment
  | tag
  deriving DecidableEq, Repr

/-- The name of a kind. -/
def SpanKind.name : SpanKind → String
  | .plain => "plain"
  | .script => "script"
  | .style => "style"
  | .textElement => "text-element"
  | .comment => "comment"
  | .tag => "tag-attribute"

/-- A construct at the start of a text. -/
structure Construct where
  /-- What it is. -/
  kind : SpanKind
  /-- Its text. -/
  text : List Char
  /-- The text behind it. -/
  rest : List Char
  /-- Whether its end was found. -/
  closed : Bool
  deriving Repr

/-- Whether a text behind `<` makes that the start of a tag. -/
def startsTag : List Char → Bool
  | [] => false
  | '/' :: c :: _ => c.isAlpha
  | c :: _ => c.isAlpha || c == '!' || c == '?'

/-- Whether a character may stand in a tag's name. -/
def isTagNameChar (c : Char) : Bool :=
  c.isAlphanum || c == '-' || c == ':'

/-- The tag's name that a text starts with. -/
def tagName (cs : List Char) : List Char :=
  cs.takeWhile isTagNameChar

/-- The kind of the elements of a name whose content is no markup. -/
def rawKind? (name : List Char) : Option SpanKind :=
  if Text.sameIgnoringCase name "script".toList then some .script
  else if Text.sameIgnoringCase name "style".toList then some .style
  else if Text.sameIgnoringCase name "title".toList then some .textElement
  else if Text.sameIgnoringCase name "textarea".toList then some .textElement
  else none

/-- Whether a character may stand behind the name of an end tag. -/
def endsName (c : Char) : Bool :=
  Text.isPageBlank c || c == '>' || c == '/'

/-- Whether a text starts with the end tag of a name, whatever the case, as far
as the character behind the name. -/
def startsEndTag (name : List Char) : List Char → Bool
  | '<' :: '/' :: cs =>
    Text.sameIgnoringCase (cs.take name.length) name && (cs.drop name.length).head?.any endsName
  | _ => false

/-- The text through the first end tag of a name, and the rest. -/
def throughEndTag? (name : List Char) : List Char → Option (List Char × List Char)
  | [] => none
  | c :: cs =>
    if startsEndTag name (c :: cs) then
      (Text.cut? ['>'] (c :: cs)).map fun (before, rest) => (before ++ ['>'], rest)
    else (throughEndTag? name cs).map fun (before, rest) => (c :: before, rest)

/-- The comment whose opening was read. -/
def commentBehind (cs : List Char) : Construct :=
  let opening := "<!--".toList
  match Text.cut? "-->".toList cs with
  | some (inner, rest) => ⟨.comment, opening ++ inner ++ "-->".toList, rest, true⟩
  | none => ⟨.comment, opening ++ cs, [], false⟩

/-- The tag whose `<` was read, with the content and the end tag if its content
is no markup. -/
def tagBehind (cs : List Char) : Construct :=
  match Text.Quoting.bare.cut? Text.isPageBlank cs with
  | none => ⟨.tag, '<' :: cs, [], false⟩
  | some (inner, rest) =>
    let first := '<' :: inner ++ ['>']
    let name := tagName inner
    match rawKind? name with
    | none => ⟨.tag, first, rest, true⟩
    | some kind =>
      match throughEndTag? name rest with
      | some (content, rest) => ⟨kind, first ++ content, rest, true⟩
      | none => ⟨kind, first ++ rest, [], false⟩

/-- **The construct that a text starts with**, if it starts with one. -/
def construct? : List Char → Option Construct
  | '<' :: cs =>
    match Text.behind? "!--".toList cs with
    | some inner => some (commentBehind inner)
    | none => if startsTag cs then some (tagBehind cs) else none
  | _ => none

theorem eq_of_throughEndTag? {name cs before rest : List Char}
    (h : throughEndTag? name cs = some (before, rest)) : cs = before ++ rest := by
  induction cs generalizing before with
  | nil => simp [throughEndTag?] at h
  | cons c cs ih =>
    simp only [throughEndTag?] at h
    split at h
    · simp only [Option.map_eq_some_iff, Prod.mk.injEq, Prod.exists] at h
      obtain ⟨b, r, hcut, rfl, rfl⟩ := h
      exact Text.eq_of_cut? hcut
    · simp only [Option.map_eq_some_iff, Prod.mk.injEq, Prod.exists] at h
      obtain ⟨b, r, hcut, rfl, rfl⟩ := h
      simp [ih hcut]

theorem eq_of_commentBehind (cs : List Char) :
    "<!--".toList ++ cs = (commentBehind cs).text ++ (commentBehind cs).rest := by
  unfold commentBehind
  split
  · next hcut =>
    rw [Text.eq_of_cut? hcut]
    simp
  · simp

theorem eq_of_tagBehind (cs : List Char) :
    '<' :: cs = (tagBehind cs).text ++ (tagBehind cs).rest := by
  unfold tagBehind
  split
  · simp
  · next hcut =>
    have hcs := Text.Quoting.eq_of_cut? hcut
    dsimp only
    split
    · simp [hcs]
    · split
      · next hend => simp [hcs, eq_of_throughEndTag? hend]
      · simp [hcs]

/-- **A construct and the text behind it make up the text.** -/
theorem eq_of_construct? {cs : List Char} {k : Construct} (h : construct? cs = some k) :
    cs = k.text ++ k.rest := by
  unfold construct? at h
  split at h
  · next cs =>
    split at h
    · next inner hinner =>
      cases h
      rw [Text.behind?_eq_some_iff.1 hinner]
      exact eq_of_commentBehind inner
    · split at h
      · cases h
        exact eq_of_tagBehind cs
      · cases h
  · cases h

theorem text_tagBehind_ne_nil (cs : List Char) : (tagBehind cs).text ≠ [] := by
  unfold tagBehind
  split
  · simp
  · dsimp only
    split
    · simp
    · split <;> simp

theorem text_commentBehind_ne_nil (cs : List Char) : (commentBehind cs).text ≠ [] := by
  unfold commentBehind
  split <;> simp

/-- A construct is not empty. -/
theorem text_ne_nil_of_construct? {cs : List Char} {k : Construct} (h : construct? cs = some k) :
    k.text ≠ [] := by
  unfold construct? at h
  split at h
  · split at h
    · cases h
      exact text_commentBehind_ne_nil _
    · split at h
      · cases h
        exact text_tagBehind_ne_nil _
      · cases h
  · cases h

/-- **A construct takes something.** -/
theorem length_of_construct? {cs : List Char} {k : Construct} (h : construct? cs = some k) :
    k.rest.length < cs.length := by
  have hlen := congrArg List.length (eq_of_construct? h)
  have hpos := List.length_pos_iff.2 (text_ne_nil_of_construct? h)
  simp only [List.length_append] at hlen
  omega

end Page

end Trellis
