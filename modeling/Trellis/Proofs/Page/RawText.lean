import Trellis.Proofs.Page.Partition
import Trellis.Proofs.Text.Quoting
/-!
# Page — elements whose content is no markup

The content of a script, a style, a title or a text area runs to the first end tag of
the element's name, whatever stands before that: no slash at the end of the opening tag
ends it, no `>` in a value of that tag, and no longer name behind `</`. Where no end tag
has a `>` behind it, the element takes the rest of the page. `rawText_exact` says so of
every span of these kinds, and that no tag of these names is a span of its own.
-/

namespace Trellis

namespace Page

open Text.Quoting

variable {name cs before inner behind rest : List Char} {kind : SpanKind} {k : Construct}

/-! ## The names -/

/-- The names of the elements that make up the spans of a kind, where their content is
no markup. -/
def SpanKind.words : SpanKind → List String
  | .script => ["script"]
  | .style => ["style"]
  | .textElement => ["title", "textarea"]
  | .plain | .comment | .tag => []

/-- **A kind is given by the names of its elements**, in any case. -/
theorem rawKind?_eq_some_iff :
    rawKind? name = some kind ↔
      ∃ word ∈ kind.words, Text.sameIgnoringCase name word.toList = true := by
  constructor
  · intro h
    unfold rawKind? at h
    split_ifs at h with hscript hstyle htitle harea
    all_goals cases h
    · exact ⟨_, by decide, hscript⟩
    · exact ⟨_, by decide, hstyle⟩
    · exact ⟨_, by decide, htitle⟩
    · exact ⟨_, by decide, harea⟩
  · rintro ⟨word, hword, hsame⟩
    have hlower : name.map Char.toLower = word.toList.map Char.toLower := beq_iff_eq.1 hsame
    unfold rawKind? Text.sameIgnoringCase
    rw [hlower]
    revert hword
    cases kind <;>
      simp only [SpanKind.words, List.mem_cons, List.not_mem_nil, or_false, false_imp_iff]
    · rintro rfl
      decide
    · rintro rfl
      decide
    · rintro (rfl | rfl) <;> decide

/-! ## The first end tag -/

/-- **The start of an end tag**: `</`, the name in any case, and a blank, a slash or a
`>` behind it. -/
def EndTag (word cs : List Char) : Prop :=
  ∃ shown c more, cs = '<' :: '/' :: (shown ++ c :: more) ∧
    Text.sameIgnoringCase shown word = true ∧ (Text.isPageBlank c = true ∨ c = '>' ∨ c = '/')

theorem startsEndTag_iff_endTag {word : List Char}
    (hsame : Text.sameIgnoringCase name word = true) :
    startsEndTag name cs = true ↔ EndTag word cs := by
  have hlower : name.map Char.toLower = word.map Char.toLower := beq_iff_eq.1 hsame
  simp only [startsEndTag_iff, EndTag, Text.sameIgnoringCase, hlower, endsName, Bool.or_eq_true,
    beq_iff_eq, or_assoc]

/-- **Content ends at the first end tag.** -/
theorem exists_of_throughEndTag? (h : throughEndTag? name cs = some (before, rest)) :
    ∃ content tag, before = content ++ (tag ++ ['>']) ∧ '>' ∉ tag ∧
      startsEndTag name (tag ++ '>' :: rest) = true ∧
      ∀ a b, content = a ++ b → b ≠ [] → startsEndTag name (b ++ (tag ++ '>' :: rest)) = false := by
  induction cs generalizing before with
  | nil => cases h
  | cons c cs ih =>
    rw [throughEndTag?] at h
    split at h
    · next hstarts =>
      obtain ⟨⟨tag, rest⟩, hcut, hsame⟩ := Option.map_eq_some_iff.1 h
      obtain ⟨rfl, rfl⟩ := Prod.mk.inj hsame
      obtain ⟨heq, htag⟩ := Text.cut?_singleton_eq_some_iff.1 hcut
      refine ⟨[], tag, rfl, htag, heq ▸ hstarts, ?_⟩
      intro a b hnil hne
      exact absurd (List.append_eq_nil_iff.1 hnil.symm).2 hne
    · next hstarts =>
      obtain ⟨⟨before, rest⟩, hrest, hsame⟩ := Option.map_eq_some_iff.1 h
      obtain ⟨rfl, rfl⟩ := Prod.mk.inj hsame
      obtain ⟨content, tag, rfl, htag, hends, hnone⟩ := ih hrest
      refine ⟨c :: content, tag, rfl, htag, hends, ?_⟩
      intro a b hcontent hne
      cases a with
      | nil =>
        -- the whole content is what the search looked at first
        have heq := eq_of_throughEndTag? hrest
        rw [List.nil_append] at hcontent
        rw [← hcontent, Bool.eq_false_iff]
        rw [heq] at hstarts
        simpa using hstarts
      | cons d a =>
        rw [List.cons_append, List.cons.injEq] at hcontent
        exact hnone a b hcontent.2 hne

/-- **Content without an end** has no end tag with a `>` behind it. -/
theorem not_mem_of_throughEndTag?_eq_none (h : throughEndTag? name cs = none) {a b : List Char}
    (hcs : cs = a ++ b) (hstarts : startsEndTag name b = true) : '>' ∉ b := by
  induction cs generalizing a with
  | nil =>
    obtain ⟨-, rfl⟩ := List.append_eq_nil_iff.1 hcs.symm
    exact List.not_mem_nil
  | cons c cs ih =>
    rw [throughEndTag?] at h
    split at h
    · have hnone := Text.not_mem_of_cut?_eq_none (Option.map_eq_none_iff.1 h)
      rw [hcs] at hnone
      exact fun hmem => hnone (List.mem_append_right a hmem)
    · next hfirst =>
      cases a with
      | nil =>
        rw [List.nil_append] at hcs
        exact absurd (hcs ▸ hstarts) hfirst
      | cons d a =>
        rw [List.cons_append, List.cons.injEq] at hcs
        exact ih (Option.map_eq_none_iff.1 h) hcs.2

/-! ## The forms of tags -/

/-- **What the text behind a `<` makes of it**: a tag, or an element with its tag, where
each may lack its end. -/
inductive TagForm : List Char → Construct → Prop where
  /-- A tag without its `>` takes the rest of the page. -/
  | openTag {cs : List Char} (hcut : bare.cut? Text.isPageBlank cs = none) :
      TagForm cs ⟨.tag, '<' :: cs, [], false⟩
  /-- A tag of another name ends at its `>`. -/
  | tag {cs inner rest : List Char} (hcut : bare.cut? Text.isPageBlank cs = some (inner, rest))
      (hname : rawKind? (tagName inner) = none) :
      TagForm cs ⟨.tag, '<' :: inner ++ ['>'], rest, true⟩
  /-- An element ends at its end tag. -/
  | element {cs inner behind before rest : List Char} {kind : SpanKind}
      (hcut : bare.cut? Text.isPageBlank cs = some (inner, behind))
      (hname : rawKind? (tagName inner) = some kind)
      (hend : throughEndTag? (tagName inner) behind = some (before, rest)) :
      TagForm cs ⟨kind, '<' :: inner ++ ['>'] ++ before, rest, true⟩
  /-- An element without one takes the rest of the page. -/
  | openElement {cs inner behind : List Char} {kind : SpanKind}
      (hcut : bare.cut? Text.isPageBlank cs = some (inner, behind))
      (hname : rawKind? (tagName inner) = some kind)
      (hend : throughEndTag? (tagName inner) behind = none) :
      TagForm cs ⟨kind, '<' :: inner ++ ['>'] ++ behind, [], false⟩

theorem tagForm_tagBehind (cs : List Char) : TagForm cs (tagBehind cs) := by
  unfold tagBehind
  split
  · next hcut => exact .openTag hcut
  · next hcut =>
    dsimp only
    split
    · next hname => exact .tag hcut hname
    · next hname =>
      split
      · next hend => exact .element hcut hname hend
      · next hend => exact .openElement hcut hname hend

/-- **A construct is a comment or has one of these forms.** -/
theorem comment_or_tagForm (h : construct? cs = some k) :
    (∃ more, cs = "<!--".toList ++ more ∧ k.kind = .comment) ∨
      ∃ more, cs = '<' :: more ∧ TagForm more k := by
  unfold construct? at h
  split at h
  · next more =>
    split at h
    · next inner hinner =>
      cases h
      refine .inl ⟨inner, ?_, ?_⟩
      · rw [Text.behind?_eq_some_iff.1 hinner]
        rfl
      · unfold commentBehind
        split <;> rfl
    · split at h
      · cases h
        exact .inr ⟨more, rfl, tagForm_tagBehind more⟩
      · cases h
  · cases h

/-- What stands where a piece starts is its construct. -/
theorem exists_construct_of_start {piece : Piece} (h : piece ∈ (scan html).pieces)
    (hhtml : html = before ++ cs) (hstart : piece.span.start = Text.width before) :
    ∃ rest, cs = piece.text ++ rest ∧
      construct? cs = some ⟨piece.span.kind, piece.text, rest, piece.span.closed⟩ := by
  obtain ⟨earlier, rest, hpiece, hearlier, -, hconstruct⟩ := exists_of_mem_piecesFrom h
  rw [Nat.zero_add, hstart] at hearlier
  obtain ⟨-, rfl⟩ := Text.eq_of_append_of_width (hhtml.symm.trans hpiece) hearlier
  exact ⟨rest, rfl, hconstruct⟩

/-! ## The elements of a page -/

/-- **The opening tag of an element**, from its name up to its `>`. -/
structure OpeningTag (word name attributes : List Char) : Prop where
  /-- Its name is the element's, in any case. -/
  named : Text.sameIgnoringCase name word = true
  /-- The name is made of the characters of names. -/
  letters : name.all isTagNameChar = true
  /-- And it is the whole of it. -/
  whole : ∀ c ∈ attributes.head?, isTagNameChar c = false
  /-- A `>` before the end of the tag stands in a value. -/
  quoted : ∀ a b, name ++ attributes = a ++ '>' :: b →
    ∃ quote, bare.after? Text.isPageBlank a = some (.inside quote)
  /-- The one at its end does not. -/
  outside : ∃ t, bare.after? Text.isPageBlank (name ++ attributes) = some t ∧
    ∀ quote, t ≠ .inside quote

variable {html word attributes : List Char} {s : Span}

theorem OpeningTag.tagName_eq (h : OpeningTag word name attributes) :
    tagName (name ++ attributes) = name :=
  (Text.span_append h.letters h.whole).1

/-- It ends where the reader of tags says. -/
theorem OpeningTag.cut?_eq (h : OpeningTag word name attributes) (behind : List Char) :
    bare.cut? Text.isPageBlank (name ++ attributes ++ '>' :: behind) =
      some (name ++ attributes, behind) :=
  cut?_eq_some_iff.2 ⟨rfl, h.outside⟩

/-- The reader of tags finds opening tags. -/
theorem exists_openingTag (hcut : bare.cut? Text.isPageBlank cs = some (inner, behind))
    (hname : Text.sameIgnoringCase (tagName inner) word = true) :
    ∃ attributes, inner = tagName inner ++ attributes ∧
      OpeningTag word (tagName inner) attributes := by
  obtain ⟨-, t, hafter, houtside⟩ := cut?_eq_some_iff.1 hcut
  have hinner : inner = tagName inner ++ inner.dropWhile isTagNameChar :=
    List.takeWhile_append_dropWhile.symm
  refine ⟨_, hinner, hname, List.all_takeWhile, ?_, ?_, ?_⟩
  · intro c hc
    have hhead := List.head?_dropWhile_not isTagNameChar inner
    rwa [Option.mem_def.1 hc] at hhead
  · intro a b hab
    rw [← hinner] at hab
    exact exists_inside_of_after? (hab ▸ hafter)
  · rw [← hinner]
    exact ⟨t, hafter, houtside⟩

/-- The text of a tag. -/
def tagText (inner : List Char) : List Char :=
  '<' :: (inner ++ ['>'])

/-- **An element whose content is no markup**, in a page. -/
structure RawElement (html : List Char) (s : Span)
    (word before name attributes behind : List Char) : Prop where
  /-- It has an opening tag. -/
  opening : OpeningTag word name attributes
  /-- That tag stands where the span starts. -/
  text : html = before ++ (tagText (name ++ attributes) ++ behind)
  start : s.start = Text.width before
  /-- The span holds all of the tag. -/
  opening_le : s.start + Text.width (tagText (name ++ attributes)) ≤ s.stop
  /-- If it is closed, it ends at the first `>` of the first end tag. -/
  closed : s.closed = true → ∃ content tag rest, behind = content ++ (tag ++ '>' :: rest) ∧
    EndTag word (tag ++ '>' :: rest) ∧ '>' ∉ tag ∧
    (∀ a b, content = a ++ b → b ≠ [] → ¬ EndTag word (b ++ (tag ++ '>' :: rest))) ∧
    s.stop = s.start + Text.width (tagText (name ++ attributes)) + Text.width (content ++ tag) + 1
  /-- If it is not, it ends with the page, and no end tag in it has a `>` behind it. -/
  unclosed : s.closed = false → s.stop = Text.width html ∧
    ∀ a b, behind = a ++ b → EndTag word b → '>' ∉ b

/-- **A span of such a kind is an element.** -/
theorem exists_rawElement {piece : Piece} (h : piece ∈ (scan html).pieces)
    (hwords : piece.span.kind.words ≠ []) :
    ∃ word ∈ piece.span.kind.words, ∃ before name attributes behind,
      RawElement html piece.span word.toList before name attributes behind := by
  obtain ⟨before, rest, hhtml, hstart, hstop, hconstruct⟩ := exists_of_mem_piecesFrom h
  obtain ⟨⟨start, stop, kind, closed⟩, text⟩ := piece
  dsimp only at hwords hhtml hstart hstop hconstruct ⊢
  rw [Nat.zero_add] at hstart
  rcases comment_or_tagForm hconstruct with ⟨-, -, rfl⟩ | ⟨more, hmore, hform⟩
  · exact absurd rfl hwords
  cases hform with
  | openTag => exact absurd rfl hwords
  | tag => exact absurd rfl hwords
  | @element inner behind through _ _ hcut hname hend =>
    obtain ⟨word, hword, hsame⟩ := rawKind?_eq_some_iff.1 hname
    obtain ⟨attributes, hinner, hopening⟩ := exists_openingTag hcut hsame
    obtain ⟨content, tag, rfl, htag, hends, hnone⟩ := exists_of_throughEndTag? hend
    have hbehind : behind = content ++ (tag ++ '>' :: rest) := by
      simpa using eq_of_throughEndTag? hend
    have hstop : stop = start + Text.width (tagText inner) + Text.width (content ++ tag) + 1 := by
      have hgt : ('>' : Char).utf8Size = 1 := rfl
      rw [hstop, List.cons_append]
      change start + Text.width (tagText inner ++ (content ++ (tag ++ ['>']))) = _
      simp only [Text.width_append, Text.width_cons, Text.width_nil, hgt]
      omega
    refine
      ⟨word, hword, before, tagName inner, attributes, behind, hopening, ?_, hstart, ?_, ?_, ?_⟩
    · rw [hhtml, ← hinner, hbehind]
      simp [tagText]
    · rw [← hinner, hstop]
      dsimp only
      omega
    · intro _
      refine ⟨content, tag, rest, hbehind, (startsEndTag_iff_endTag hsame).1 hends, htag, ?_, ?_⟩
      · intro a b hab hne hearlier
        rw [← startsEndTag_iff_endTag hsame, hnone a b hab hne] at hearlier
        cases hearlier
      · rwa [← hinner]
    · intro hopen
      cases hopen
  | @openElement inner behind _ hcut hname hend =>
    obtain ⟨word, hword, hsame⟩ := rawKind?_eq_some_iff.1 hname
    obtain ⟨attributes, hinner, hopening⟩ := exists_openingTag hcut hsame
    have hhtml : html = before ++ (tagText inner ++ behind) := by
      rw [hhtml]
      simp [tagText]
    have hstop : stop = start + Text.width (tagText inner) + Text.width behind := by
      rw [hstop, List.cons_append]
      change start + Text.width (tagText inner ++ behind) = _
      rw [Text.width_append, Nat.add_assoc]
    refine
      ⟨word, hword, before, tagName inner, attributes, behind, hopening, ?_, hstart, ?_, ?_, ?_⟩
    · rwa [← hinner]
    · rw [← hinner, hstop]
      exact Nat.le_add_right _ _
    · intro hclosed
      cases hclosed
    · intro _
      refine ⟨?_, ?_⟩
      · rw [hstop, hhtml, hstart]
        simp only [Text.width_append, Nat.add_assoc]
      · intro a b hab hends
        exact not_mem_of_throughEndTag?_eq_none hend hab ((startsEndTag_iff_endTag hsame).2 hends)

/-- **What starts with the opening tag of such an element is of its kind.** -/
theorem kind_eq_of_openingTag {piece : Piece} {w : String} (h : piece ∈ (scan html).pieces)
    (hword : w ∈ kind.words) (hopening : OpeningTag w.toList name attributes)
    (hhtml : html = before ++ (tagText (name ++ attributes) ++ behind))
    (hstart : piece.span.start = Text.width before) : piece.span.kind = kind := by
  have hname : rawKind? (tagName (name ++ attributes)) = some kind := by
    rw [hopening.tagName_eq, rawKind?_eq_some_iff]
    exact ⟨w, hword, hopening.named⟩
  obtain ⟨rest, -, hconstruct⟩ := exists_construct_of_start h hhtml hstart
  rcases comment_or_tagForm hconstruct with ⟨more, hmore, -⟩ | ⟨more, hmore, hform⟩
  · -- a comment is no tag with a name
    have hempty : tagName (name ++ (attributes ++ '>' :: behind)) = [] := by
      have hmore : name ++ (attributes ++ '>' :: behind) = '!' :: ("--".toList ++ more) := by
        simpa [tagText] using hmore
      rw [hmore]
      rfl
    have hwhole : ∀ c ∈ (attributes ++ '>' :: behind).head?, isTagNameChar c = false := by
      cases attributes with
      | nil =>
        rintro c ⟨⟩
        decide
      | cons c attributes => exact hopening.whole
    rw [tagName, (Text.span_append hopening.letters hwhole).1] at hempty
    rw [hopening.tagName_eq, hempty] at hname
    cases hname
  · obtain rfl : name ++ attributes ++ '>' :: behind = more := by
      simpa [tagText] using hmore
    have hcut := hopening.cut?_eq behind
    generalize hk :
      (⟨piece.span.kind, piece.text, rest, piece.span.closed⟩ : Construct) = k at hform
    have hkind : k.kind = kind := by
      cases hform with
      | openTag hcut' =>
        rw [hcut] at hcut'
        cases hcut'
      | tag hcut' hname' =>
        obtain ⟨rfl, -⟩ := Prod.mk.inj (Option.some.inj (hcut.symm.trans hcut'))
        rw [hname] at hname'
        cases hname'
      | element hcut' hname' | openElement hcut' hname' =>
        obtain ⟨rfl, -⟩ := Prod.mk.inj (Option.some.inj (hcut.symm.trans hcut'))
        exact Option.some.inj (hname'.symm.trans hname)
    rw [← hkind, ← hk]

/-- **The elements of a page** whose content is no markup. -/
structure RawElements (html : List Char) (p : Page) : Prop where
  /-- A span of such a kind is an element of one of its names. -/
  element : ∀ s ∈ p.spans, s.kind.words ≠ [] → ∃ word ∈ s.kind.words,
    ∃ before name attributes behind,
      RawElement html s word.toList before name attributes behind
  /-- A span that starts with the opening tag of such an element is of its kind. -/
  kind : ∀ s ∈ p.spans, ∀ before name attributes behind,
    html = before ++ (tagText (name ++ attributes) ++ behind) → s.start = Text.width before →
    ∀ kind : SpanKind, ∀ word ∈ kind.words, OpeningTag word.toList name attributes → s.kind = kind

/-- **The content of such an element runs to its first end tag.** -/
theorem rawText_exact (html : List Char) : RawElements html (scan html) := by
  refine ⟨?_, ?_⟩
  · intro s hs hwords
    obtain ⟨piece, hpiece, rfl⟩ := List.mem_map.1 hs
    exact exists_rawElement hpiece hwords
  · intro s hs before name attributes behind hhtml hstart kind word hword hopening
    obtain ⟨piece, hpiece, rfl⟩ := List.mem_map.1 hs
    exact kind_eq_of_openingTag hpiece hword hopening hhtml hstart

/-- Neither a `>` in a value ends a script, nor a slash, nor a longer name. A title without
an end goes on to the end of the page. -/
example : (scan "<p><Script src='>' /></scriptx>;</SCRIPT\n >.<title></p>".toList).pieces =
    [⟨⟨0, 3, .tag, true⟩, "<p>".toList⟩,
      ⟨⟨3, 43, .script, true⟩, "<Script src='>' /></scriptx>;</SCRIPT\n >".toList⟩,
      ⟨⟨44, 55, .textElement, false⟩, "<title></p>".toList⟩] := by
  decide +kernel

end Page

end Trellis
