import Trellis.Proofs.Page.Injection
import Trellis.Proofs.Page.Nearest
import Trellis.Proofs.Page.Spots
/-!
# Page — the element that is mounted

The search for the mount element goes through the page as text. So what it finds in a
tag is a mention of the id (`Mentions`): a blank, the attribute's name, an equals sign
and the id. A mention need not be an attribute, since it can stand in a value of another
one, or in an end tag, and a value can go on behind the id. Where it stands outside of
values and the id is all of its value it is one (`Plain`). The mount point is the start of
an element with that id exactly if it is that of an opening tag and the attribute stands
somewhere in it (`Spot`), be that a mention or not (`mountPoint_exact`).
-/

namespace Trellis

namespace Page

open Text.Quoting

variable {html id cs rest front : List Char} {offset : Nat} {p : Page} {piece : Piece}

/-! ## Mentions of an id -/

/-- An id as the search accepts it, and the text behind it. -/
inductive Shown (id : List Char) : List Char → List Char → Prop where
  | quoted {quote : Char} (hquote : quote = '"' ∨ quote = '\'') (behind : List Char) :
      Shown id (quote :: (id ++ [quote])) behind
  | bare {behind : List Char}
      (hbehind : ∀ c ∈ behind.head?, Text.isBlank c = true ∨ c = '/' ∨ c = '>') :
      Shown id id behind

/-- A text that mentions an id, in its parts. -/
structure Mention where
  /-- The blank in front. -/
  blank : Char
  /-- The attribute's name. -/
  name : List Char
  /-- What stands between the name and the equals sign. -/
  gap : List Char
  /-- What stands between the equals sign and the id. -/
  after : List Char
  /-- The id, with its quotes if it has any. -/
  shown : List Char
  /-- All that follows. -/
  behind : List Char

namespace Mention

variable {f : Mention}

/-- The text as a whole. -/
def text (f : Mention) : List Char :=
  f.blank :: (f.name ++ (f.gap ++ '=' :: (f.after ++ (f.shown ++ f.behind))))

/-- What the search accepts as a mention. -/
structure Of (f : Mention) (id : List Char) : Prop where
  blank : Text.isBlank f.blank = true
  name : Text.sameIgnoringCase f.name "id".toList = true
  gap : ∀ c ∈ f.gap, Text.isBlank c = true
  after : ∀ c ∈ f.after, Text.isBlank c = true
  shown : Shown id f.shown f.behind

/-- **A mention that is an attribute**: the text of the tag before it leaves the search
for the tag's end outside of values, the blanks are blanks of a tag, and the id is the
whole value. -/
structure Plain (f : Mention) (id front : List Char) : Prop where
  front : bare.after? Text.isPageBlank front = some .bare
  blank : Text.isPageBlank f.blank = true
  gap : ∀ c ∈ f.gap, Text.isPageBlank c = true
  after : ∀ c ∈ f.after, Text.isPageBlank c = true
  value : Reader.Written id f.shown f.behind

end Mention

/-- A mention of an id that starts in a piece, behind the piece's first part. -/
structure Mentions (html id : List Char) (piece : Piece) (front : List Char) (f : Mention) :
    Prop where
  accepted : f.Of id
  stands : ∃ before, html = before ++ (front ++ f.text) ∧ piece.span.start = Text.width before
  inside : ∃ more, piece.text = front ++ f.blank :: more

/-- **An element with an id**: an opening tag with that attribute. -/
structure HasId (text id : List Char) : Prop where
  opening : ∃ name, tagNameOf? text = some (name, false)
  has : HasAttribute text "id" id

/-! ## What the search finds -/

theorem exists_shown_of_behindId? (h : behindId? id cs = some rest) :
    ∃ shown behind, cs = shown ++ behind ∧ Shown id shown behind ∧ rest <:+ behind := by
  simp only [behindId?, Option.or_eq_some_iff] at h
  rcases h with h | ⟨-, h | ⟨-, h⟩⟩
  · exact ⟨_, rest, Text.behind?_eq_some_iff.1 h, .quoted (.inl rfl) rest, List.suffix_rfl⟩
  · exact ⟨_, rest, Text.behind?_eq_some_iff.1 h, .quoted (.inr rfl) rest, List.suffix_rfl⟩
  · unfold behindBareId? at h
    split at h
    · next hid =>
      cases h
      exact ⟨id, [], Text.behind?_eq_some_iff.1 hid, .bare (by simp), List.suffix_rfl⟩
    · next c behind hid =>
      split at h
      · next hc =>
        cases h
        refine ⟨id, c :: rest, Text.behind?_eq_some_iff.1 hid, .bare ?_, List.suffix_cons c rest⟩
        simpa [or_assoc] using hc
      · cases h
    · cases h

theorem exists_shown_of_behindBlanksAndId? (h : behindBlanksAndId? id cs = some rest) :
    ∃ after shown behind, cs = after ++ (shown ++ behind) ∧
      (∀ c ∈ after, Text.isBlank c = true) ∧ Shown id shown behind ∧ rest <:+ behind := by
  have hhere {cs : List Char} (h : behindId? id cs = some rest) :
      ∃ after shown behind, cs = after ++ (shown ++ behind) ∧
        (∀ c ∈ after, Text.isBlank c = true) ∧ Shown id shown behind ∧ rest <:+ behind := by
    obtain ⟨shown, behind, hcs, hshown⟩ := exists_shown_of_behindId? h
    exact ⟨[], shown, behind, hcs, List.forall_mem_nil _, hshown⟩
  induction cs with
  | nil => exact hhere h
  | cons c cs ih =>
    rw [behindBlanksAndId?] at h
    split at h
    · next hblank =>
      rcases Option.or_eq_some_iff.1 h with h | ⟨-, h⟩
      · obtain ⟨after, shown, behind, rfl, hafter, hshown⟩ := ih h
        exact ⟨c :: after, shown, behind, rfl, List.forall_mem_cons.2 ⟨hblank, hafter⟩, hshown⟩
      · exact hhere h
    · exact hhere h

/-- **What the search accepts is a mention**, and it goes on in what is behind the id. -/
theorem exists_mention_of_behindIdAttribute? (h : behindIdAttribute? id cs = some rest) :
    ∃ f : Mention, f.Of id ∧ cs = f.text ∧ rest <:+ f.behind := by
  unfold behindIdAttribute? at h
  split at h
  · next blank i d cs =>
    split at h
    · next hname =>
      rw [Bool.and_eq_true] at hname
      split at h
      · next behind hequals =>
        obtain ⟨after, shown, more, rfl, hafter, hshown, hrest⟩ :=
          exists_shown_of_behindBlanksAndId? h
        have hgap : ∀ c ∈ cs.takeWhile Text.isBlank, Text.isBlank c = true :=
          fun c hc => List.mem_takeWhile_imp hc
        refine ⟨⟨blank, [i, d], cs.takeWhile Text.isBlank, after, shown, more⟩,
          ⟨hname.1, hname.2, hgap, hafter, hshown⟩, ?_, hrest⟩
        have hcs : cs.takeWhile Text.isBlank ++ Text.trimStart cs = cs :=
          List.takeWhile_append_dropWhile
        rw [hequals] at hcs
        simp [Mention.text, hcs]
      · cases h
    · cases h
  · cases h

/-- So a mention stands at each offset that is found. -/
theorem exists_mention_of_mem_idOffsets {o : Nat} (h : o ∈ idOffsets id offset cs) :
    ∃ before, ∃ f : Mention, f.Of id ∧ cs = before ++ f.text ∧ o = offset + Text.width before := by
  fun_induction idOffsets id offset cs with
  | case1 => cases h
  | case2 offset c cs rest hfound ih =>
    obtain ⟨f, hf, htext, hrest⟩ := exists_mention_of_behindIdAttribute? hfound
    rcases List.mem_cons.1 h with rfl | h
    · exact ⟨[], f, hf, htext, rfl⟩
    · obtain ⟨before, g, hg, rfl, rfl⟩ := ih h
      -- the search went on behind the first mention
      obtain ⟨taken, htaken⟩ : before ++ g.text <:+ c :: cs := by
        rw [htext]
        refine hrest.trans ⟨f.blank :: (f.name ++ (f.gap ++ '=' :: (f.after ++ f.shown))), ?_⟩
        simp [Mention.text]
      refine ⟨taken ++ before, g, hg, by rw [← htaken, List.append_assoc], ?_⟩
      rw [← htaken]
      simp only [Text.width_append]
      omega
  | case3 offset c cs hnone ih =>
    obtain ⟨before, f, hf, rfl, rfl⟩ := ih h
    refine ⟨c :: before, f, hf, rfl, ?_⟩
    rw [Text.width_cons, Nat.add_assoc]

/-- **A mention stands in the tag that a safe mount point is the start of.** -/
theorem exists_mentions {name : String} {m : MountPoint}
    (hmount : (scan html).mountPoint? name = some m) (hsafe : m.safe = true) :
    ∃ piece ∈ (scan html).pieces, piece.span.kind = .tag ∧ piece.span.start = m.offset ∧
      ∃ front f, Mentions html name.toList piece front f := by
  unfold mountPoint? at hmount
  split at hmount
  · cases hmount
  obtain ⟨o, ho, s, hs, hkind, rfl⟩ := exists_of_mountAmong (by simp) hmount hsafe
  obtain ⟨piece, hpiece, rfl⟩ := List.mem_map.1 (mem_of_spanAt? (ordered_scan html) hs)
  obtain ⟨earlier, f, hf, hfound, hoffset⟩ := exists_mention_of_mem_idOffsets ho
  obtain ⟨before, rest, hhtml, hbefore, hstop, hconstruct⟩ := exists_of_mem_piecesFrom hpiece
  have hfound : html = earlier ++ f.text := hfound
  rw [Nat.zero_add] at hoffset hbefore
  obtain ⟨hlow, hhigh⟩ := Span.splits_iff.1 (splits_of_spanAt? hs)
  -- the mention starts in the piece, so the text before it is the piece's first part
  obtain ⟨front, rfl, htext⟩ :=
    exists_append_of_width_le (hhtml.symm.trans hfound) (by omega)
  refine ⟨piece, hpiece, hkind, rfl, front, f, hf, ⟨before, ?_, hbefore⟩, ?_⟩
  · rw [hhtml, htext]
  · rw [Text.width_append] at hoffset
    rcases hhigh with hbefore_stop | hopen
    · obtain ⟨between, hbetween, hmore⟩ := exists_append_of_width_le htext.symm (by omega)
      cases between with
      | nil =>
        rw [hbetween, List.append_nil] at hstop
        omega
      | cons c between =>
        obtain ⟨rfl, -⟩ := List.cons.inj hmore
        exact ⟨between, hbetween⟩
    · obtain rfl : rest = [] := rest_eq_nil_of_not_closed hconstruct hopen
      rw [List.append_nil] at htext
      exact ⟨_, htext⟩

/-! ## Mentions that are attributes -/

/-- A blank ends the name of a tag. -/
theorem isTagNameChar_of_isPageBlank {c : Char} (h : Text.isPageBlank c = true) :
    isTagNameChar c = false := by
  simp only [Text.isPageBlank, Bool.or_eq_true, beq_iff_eq] at h
  rcases h with (((rfl | rfl) | rfl) | rfl) | rfl <;> decide

/-- A name that is `id` in any case is a name of an attribute. -/
theorem isAttributeChar_of_sameIgnoringCase {name : List Char}
    (h : Text.sameIgnoringCase name "id".toList = true) :
    name ≠ [] ∧ ∀ c ∈ name, isAttributeChar c = true := by
  have hlower : name.map Char.toLower = ['i', 'd'] := beq_iff_eq.1 h
  refine ⟨fun hnil => by simp [hnil] at hlower, fun c hc => ?_⟩
  have hmem : c.toLower ∈ ['i', 'd'] := hlower ▸ List.mem_map_of_mem hc
  by_contra hno
  simp only [isAttributeChar, Text.isPageBlank, Bool.not_eq_true', Bool.not_eq_false,
    Bool.or_eq_true, beq_iff_eq] at hno
  revert hmem
  rcases hno with (((((((rfl | rfl) | rfl) | rfl) | rfl) | rfl) | rfl) | rfl) <;> decide

/-- **A mention that is an attribute gives the tag the id.** -/
theorem hasAttribute_of_plain {f : Mention} (hpiece : piece ∈ (scan html).pieces)
    (hkind : piece.span.kind = .tag) (h : Mentions html id piece front f)
    (hplain : f.Plain id front) :
    HasAttribute piece.text "id" id := by
  obtain ⟨hof, ⟨before, hhtml, hstart⟩, -⟩ := h
  obtain ⟨rest, htext, hconstruct⟩ := exists_construct_of_start hpiece hhtml hstart
  have hlt {c : Char} {cs : List Char} (hcs : front ++ f.text = c :: cs) : c = '<' := by
    by_contra hne
    rw [hcs, construct?_eq_none_of_ne hne] at hconstruct
    cases hconstruct
  rw [hkind] at hconstruct
  -- what is behind the tag does not matter, so the page's text from its start on is read
  rw [HasAttribute, ← tagAttributes_append (htext ▸ hconstruct), ← htext]
  refine ⟨⟨f.name, id⟩, ?_, hof.name, rfl⟩
  cases front with
  | nil =>
    have hblank := hplain.blank
    rw [hlt rfl] at hblank
    cases hblank
  | cons c front =>
    obtain rfl := hlt rfl
    -- the attributes start behind the tag's name, where the search for its end still is bare
    have hname := isTagNameChar_of_isPageBlank hplain.blank
    have hfront : bare.after? Text.isPageBlank (front.dropWhile isTagNameChar) = some bare := by
      rw [after?_dropWhile_tagName]
      exact hplain.front
    obtain ⟨done, s, hs, hread⟩ := Reader.exists_read_append (s := .between) hfront
    obtain ⟨hne, hchars⟩ := isAttributeChar_of_sameIgnoringCase hof.name
    have hattribute := Reader.mem_read_attribute (Reader.opens_step_of_isPageBlank hs hplain.blank)
      hne hchars hplain.gap hplain.after hplain.value
    have hends := Reader.not_ends hs (Reader.ne_of_isPageBlank hplain.blank).2.2.2
    rw [Mention.text, List.cons_append, tagAttributes, dropWhile_append_cons hname, hread,
      Reader.read_cons hends]
    exact List.mem_append_right done (List.mem_append_right _ hattribute)

/-- **A safe mount point is the start of a tag that mentions the id.** That is an element
with the id exactly if it is an opening tag and the attribute stands in it, whether a
mention or not; so it is if a mention is an attribute. -/
theorem mountPoint_exact {name : String} {m : MountPoint}
    (hmount : (scan html).mountPoint? name = some m) (hsafe : m.safe = true) :
    ∃ piece ∈ (scan html).pieces, piece.span.kind = .tag ∧ piece.span.start = m.offset ∧
      (∃ front f, Mentions html name.toList piece front f) ∧
      ((∃ word, tagNameOf? piece.text = some (word, false)) →
        (∃ front f, Mentions html name.toList piece front f ∧ f.Plain name.toList front) →
        HasId piece.text name.toList) ∧
      (HasId piece.text name.toList ↔
        (∃ word, tagNameOf? piece.text = some (word, false)) ∧
          ∃ f : Spot, f.text = piece.text ∧ f.Of "id" name.toList) := by
  obtain ⟨piece, hpiece, hkind, hstart, hmentions⟩ := exists_mentions hmount hsafe
  refine ⟨piece, hpiece, hkind, hstart, hmentions, ?_, ?_⟩
  · rintro hopening ⟨front, f, hmention, hplain⟩
    exact ⟨hopening, hasAttribute_of_plain hpiece hkind hmention hplain⟩
  · have hid : name.toList ≠ [] := by
      intro hnil
      rw [mountPoint?, if_pos (String.toList_eq_nil_iff.1 hnil)] at hmount
      cases hmount
    have hspot := @hasAttribute_iff piece.text name.toList "id" (by decide) hid
    exact ⟨fun h => ⟨h.opening, hspot.1 h.has⟩, fun h => ⟨h.1, hspot.2 h.2⟩⟩

/-- In the second tag the id is an attribute, in any case and with blanks of the tag. -/
theorem mountPoint_exact_behind_value :
    (scan "<i a='b'><main ID =\t'app'>".toList).mountPoint? "app" = some ⟨9, true⟩ ∧
      HasId "<main ID =\t'app'>".toList "app".toList := by
  have hmount : (scan "<i a='b'><main ID =\t'app'>".toList).mountPoint? "app" = some ⟨9, true⟩ := by
    decide +kernel
  have hpieces : (scan "<i a='b'><main ID =\t'app'>".toList).pieces =
      [⟨⟨0, 9, .tag, true⟩, "<i a='b'>".toList⟩,
        ⟨⟨9, 26, .tag, true⟩, "<main ID =\t'app'>".toList⟩] := by
    decide +kernel
  obtain ⟨piece, hpiece, -, hstart, -, hid, -⟩ := mountPoint_exact hmount rfl
  rw [hpieces, List.mem_cons, List.mem_singleton] at hpiece
  rcases hpiece with rfl | rfl
  · cases hstart
  · have hvalue : Reader.Written "app".toList "'app'".toList ">".toList :=
      .quoted (.inr rfl) (by decide) ">".toList
    refine ⟨hmount, hid ⟨"main".toList, by decide⟩ ⟨"<main".toList,
      ⟨' ', "ID".toList, [' '], ['\t'], "'app'".toList, ">".toList⟩, ?_, ?_⟩⟩
    · exact ⟨⟨by decide, by decide, List.forall_mem_singleton.2 (by decide),
          List.forall_mem_singleton.2 (by decide), .quoted (.inr rfl) _⟩,
        ⟨"<i a='b'>".toList, by decide +kernel, by decide +kernel⟩,
        ⟨"ID =\t'app'>".toList, by decide +kernel⟩⟩
    · exact ⟨by decide, by decide, List.forall_mem_singleton.2 (by decide),
        List.forall_mem_singleton.2 (by decide), hvalue⟩

/-- A mention in a value is found as well, though it is no attribute. -/
example : (scan "<p title=' id=\"app\"'>".toList).mountPoint? "app" = some ⟨0, true⟩ ∧
    tagAttributes "<p title=' id=\"app\"'>".toList = [⟨"title".toList, " id=\"app\"".toList⟩] := by
  decide +kernel

end Page

end Trellis
