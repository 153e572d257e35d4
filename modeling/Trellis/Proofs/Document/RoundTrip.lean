import Trellis.Proofs.Document.Scanning
/-!
# Document — writing passages and finding them again

A `Draft` is a passage as an author writes it down. Drafts with blanks and
comments around them are found again, each with its attributes and its content
and where it stands; and whatever the scan finds in a source stands there in this
form, one passage behind the other, with nothing but blanks and comments around
them (`passages_roundTrip`).
-/

namespace Trellis

namespace Document

variable {last : List Char}

/-! ## Drafts -/

/-- An attribute as it is written: a name, and a value in quotes of a kind that it
does not hold. -/
structure Entry where
  /-- The name. -/
  name : String
  /-- The value. -/
  value : String
  /-- The quote around the value. -/
  quote : Char
  named : isName name.toList = true
  quoted : quote = '"' ∨ quote = '\''
  closed : quote ∉ value.toList

/-- The attribute with a blank before it. -/
def Entry.written (e : Entry) : List Char :=
  ' ' :: (e.name.toList ++ '=' :: e.quote :: (e.value.toList ++ [e.quote]))

/-- **A passage as an author writes it**: a tag of letters, attributes with names
of their own, and content without the closing tag. -/
structure Draft where
  /-- The tag. -/
  tag : String
  /-- The attributes. -/
  entries : List Entry
  /-- The text between the tags. -/
  content : String
  named : tag.toList ≠ []
  alphabetic : tag.toList.all Char.isAlpha = true
  distinct : (entries.map Entry.name).Nodup
  closes : ¬ closingTag tag.toList <:+: content.toList

/-- How the passage is laid out. -/
def Draft.layout (d : Draft) : Layout where
  tag := d.tag.toList
  attributes := d.entries.flatMap Entry.written
  entries := d.entries.map fun e => (e.name, e.value)
  content := d.content.toList

/-- Written attributes are attributes. -/
theorem attributes_written (entries : List Entry) :
    Attributes (entries.flatMap Entry.written) (entries.map fun e => (e.name, e.value)) := by
  induction entries with
  | nil => exact .nil rfl
  | cons e entries ih =>
    have hmore : Attributes ([' '] ++ (e.name.toList ++ ([] ++ '=' :: ([] ++ e.quote ::
        (e.value.toList ++ e.quote :: entries.flatMap Entry.written)))))
        ((String.ofList e.name.toList, String.ofList e.value.toList) ::
          entries.map fun e => (e.name, e.value)) :=
      .cons (by decide) e.named rfl rfl e.quoted e.closed ih
    simpa [Entry.written] using hmore

/-- A written passage is laid out as it must be. -/
theorem Draft.legal (d : Draft) : d.layout.Legal where
  named := d.named
  alphabetic := d.alphabetic
  apart := by
    cases hentries : d.entries with
    | nil => simp [Draft.layout, hentries]
    | cons e entries =>
      rw [Draft.layout, hentries]
      rfl
  attributes := attributes_written d.entries
  distinct := by
    have hnames : d.layout.entries.map Prod.fst = d.entries.map Entry.name := by
      simp [Draft.layout]
    rw [hnames]
    exact d.distinct
  closes := d.closes

/-- Drafts, each behind some filler, as they are laid out. -/
def layouts (drafts : List (List Char × Draft)) : List (List Char × Layout) :=
  drafts.map fun p => (p.1, p.2.layout)

theorem laidOut_layouts {drafts : List (List Char × Draft)} (hgaps : ∀ p ∈ drafts, Filler p.1)
    (hlast : Filler last) : LaidOut (layouts drafts) last where
  filled := List.forall_mem_map.2 hgaps
  legal := List.forall_mem_map.2 fun p _ => p.2.legal
  ends := hlast

/-- **Writing passages and finding them again.** -/
theorem passages_roundTrip :
    (∀ (drafts : List (List Char × Draft)) (last : List Char),
      (∀ p ∈ drafts, Filler p.1) → Filler last →
        passages (String.ofList (writtenAll (layouts drafts) last)) =
          .ok (passagesOf .start (layouts drafts))) ∧
    ∀ (source : String) (found : List Passage), passages source = .ok found →
      (∃ laid last, LaidOut laid last ∧ source.toList = writtenAll laid last ∧
        found = passagesOf .start laid) ∧
      (found.Pairwise fun p q => p.location.endOffset ≤ q.location.offset) ∧
      ∀ p ∈ found, ∃ attributes entries,
        Attributes attributes entries ∧ p.attributes = Keyed.ofList entries ∧
        Text.slice? p.location.offset p.location.endOffset source.toList =
          some ('<' :: p.tag.toList ++ attributes ++ '>' :: p.content.toList ++
            closingTag p.tag.toList) ∧
        Text.slice? p.contentLocation.offset p.contentLocation.endOffset source.toList =
          some p.content.toList ∧
        ¬ closingTag p.tag.toList <:+: p.content.toList := by
  constructor
  · intro drafts last hgaps hlast
    refine passagesFrom_eq_ok_iff.2 ⟨layouts drafts, last, laidOut_layouts hgaps hlast, ?_, rfl⟩
    rw [String.toList_ofList]
  · intro source found h
    obtain ⟨laid, last, hlaid, hsource, rfl⟩ := passagesFrom_eq_ok_iff.1 h
    refine ⟨⟨laid, last, hlaid, hsource, rfl⟩, pairwise_passagesOf .start laid, ?_⟩
    intro p hp
    obtain ⟨before, l, behind, hl, hwritten, rfl⟩ := hlaid.exists_of_mem hp
    obtain ⟨hslice, hcontent⟩ := l.slice?_passage before behind
    rw [← hwritten, ← hsource] at hslice hcontent
    refine ⟨l.attributes, l.entries, hl.attributes, rfl, ?_, ?_, ?_⟩
    · rw [hslice]
      simp [Layout.passage, Layout.written, Layout.opening]
    · rw [hcontent]
      simp [Layout.passage]
    · simpa [Layout.passage] using hl.closes

/-- The data of a card, with a value that holds both the end of a tag and the other
quote. -/
def cardData : Draft where
  tag := "data"
  entries :=
    [⟨"window", "card", '"', by decide, by decide, by decide⟩,
      ⟨"note", "a > \"b\"", '\'', by decide, by decide, by decide⟩]
  content := "1"
  named := by decide
  alphabetic := by decide
  distinct := by decide
  closes := by decide

/-- The template of a card. -/
def cardTemplate : Draft where
  tag := "template"
  entries := []
  content := "<b>hi</b>"
  named := by decide
  alphabetic := by decide
  distinct := by decide
  closes := by decide

theorem passages_roundTrip_card :
    ∃ found, passages (" <data window=\"card\" note='a > \"b\"'>1</data><!-- shown -->" ++
        "<template><b>hi</b></template>\n") = .ok found ∧
      found.map Passage.content = ["1", "<b>hi</b>"] ∧
      found.Pairwise fun p q => p.location.endOffset ≤ q.location.offset := by
  let drafts := [(" ".toList, cardData), ("<!-- shown -->".toList, cardTemplate)]
  have hcomment : Filler "<!-- shown -->".toList :=
    .comment (.text (by decide : ¬ "-->".toList <:+: " shown ".toList) (by decide) (by decide)) .nil
  have hgaps : ∀ p ∈ drafts, Filler p.1 := by
    refine List.forall_mem_cons.2 ⟨.blank (by decide) .nil, ?_⟩
    exact List.forall_mem_cons.2 ⟨hcomment, List.forall_mem_nil _⟩
  have hlast : Filler "\n".toList := .blank (by decide) .nil
  have hfound := passages_roundTrip.1 drafts "\n".toList hgaps hlast
  obtain ⟨-, hordered, -⟩ := passages_roundTrip.2 _ _ hfound
  exact ⟨passagesOf .start (layouts drafts), hfound, rfl, hordered⟩

end Document

end Trellis
