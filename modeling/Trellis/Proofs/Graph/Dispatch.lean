import Trellis.Proofs.Graph.References
import Trellis.Proofs.Markup.Printing
/-!
# Graph — documents told from markup

A source counts as a document by how it starts: behind blanks with the tag of a
section (`isDocumentSource_iff`). A document starts with a passage of such a tag, and
comments may stand before that. So a document is told from markup exactly if no comment
leads it. One that a comment leads is loaded and shown as markup, with its sections as
they are written (`dispatch_of_parse`).
-/

namespace Trellis

namespace Document

variable {source : String} {d : Document} {gap tag rest : List Char} {l : Layout}

/-! ## How a source starts -/

/-- That a source starts with a comment, behind blanks. -/
def CommentLeads (source : String) : Prop :=
  ∃ blanks rest, Text.isBlankText blanks = true ∧
    source.toList = blanks ++ ("<!--".toList ++ rest)

theorem ofList_mem_sectionTags_iff : String.ofList tag ∈ sectionTags ↔ tag ∈ tags := by
  have hnames : sectionTags = tags.map String.ofList := by decide
  rw [hnames, List.mem_map_of_injective fun _ _ => String.ofList_inj.1]

/-- **What counts as a document** is what starts with the tag of a section. -/
theorem isDocumentSource_iff :
    isDocumentSource source = true ↔
      ∃ blanks tag c rest, Text.isBlankText blanks = true ∧ tag ∈ tags ∧
        (Text.isBlank c = true ∨ c = '>') ∧
        source.toList = blanks ++ '<' :: (tag ++ c :: rest) := by
  constructor
  · intro h
    unfold isDocumentSource at h
    split at h
    · next cs hstart =>
      obtain ⟨-, blanks, hblanks, hsource⟩ := Text.trimStart_eq_cons_iff.1 hstart
      obtain ⟨tag, htag, hbehind⟩ := List.any_eq_true.1 h
      split at hbehind
      · next c rest hcs =>
        rw [Bool.or_eq_true, beq_iff_eq] at hbehind
        rw [Text.behind?_eq_some_iff.1 hcs] at hsource
        exact ⟨blanks, tag, c, rest, hblanks, htag, hbehind, hsource⟩
      · cases hbehind
    · cases h
  · rintro ⟨blanks, tag, c, rest, hblanks, htag, hc, hsource⟩
    have hstart : Text.trimStart source.toList = '<' :: (tag ++ c :: rest) :=
      Text.trimStart_eq_cons_iff.2 ⟨isBlank_lt, blanks, hblanks, hsource⟩
    have hbehind : Text.behind? tag (tag ++ c :: rest) = some (c :: rest) :=
      Text.behind?_eq_some_iff.2 rfl
    unfold isDocumentSource
    rw [hstart]
    refine List.any_eq_true.2 ⟨tag, htag, ?_⟩
    rw [hbehind, Bool.or_eq_true, beq_iff_eq]
    exact hc

/-- What starts with the tag of a section does not start with a comment. -/
theorem not_commentLeads_of_isDocumentSource (h : isDocumentSource source = true) :
    ¬ CommentLeads source := by
  rintro ⟨blanks', rest', hblanks', hcomment⟩
  obtain ⟨blanks, tag, c, rest, hblanks, htag, -, hsource⟩ := isDocumentSource_iff.1 h
  have htrimmed : Text.trimStart source.toList = '<' :: (tag ++ c :: rest) := by
    rw [hsource]
    exact Text.trimStart_append hblanks isBlank_lt
  have htrimmed' : Text.trimStart source.toList = '<' :: ("!--".toList ++ rest') := by
    rw [hcomment]
    exact Text.trimStart_append hblanks' isBlank_lt
  have hsame : tag ++ c :: rest = "!--".toList ++ rest' :=
    (List.cons.inj (htrimmed.symm.trans htrimmed')).2
  -- no tag of a section is empty, and none starts with an exclamation mark
  simp only [tags, List.mem_cons, List.not_mem_nil, or_false] at htag
  rcases htag with rfl | rfl | rfl | rfl <;> cases (List.cons.inj hsame).1

/-! ## How a document starts -/

/-- Filler is blank, or starts with a comment behind blanks. -/
theorem Filler.blank_or_comment (h : Filler gap) :
    Text.isBlankText gap = true ∨
      ∃ blanks rest, Text.isBlankText blanks = true ∧ gap = blanks ++ ("<!--".toList ++ rest) := by
  induction h with
  | nil => exact .inl rfl
  | @blank c cs hblank _ ih =>
    rcases ih with hcs | ⟨blanks, rest, hblanks, rfl⟩
    · exact .inl (List.all_cons.trans (Bool.and_eq_true_iff.2 ⟨hblank, hcs⟩))
    · exact .inr ⟨c :: blanks, rest,
        List.all_cons.trans (Bool.and_eq_true_iff.2 ⟨hblank, hblanks⟩), rfl⟩
  | @comment body cs hbody _ _ =>
    have hstarts := (cut?_comment_iff.2 ⟨hbody, Eq.refl (body ++ ("-->".toList ++ cs))⟩).1
    obtain ⟨rest, hrest⟩ := Option.isSome_iff_exists.1 hstarts
    have hcomment : body ++ ("-->".toList ++ cs) = "<!--".toList ++ rest :=
      Text.behind?_eq_some_iff.1 hrest
    exact .inr ⟨[], rest, rfl, hcomment⟩

/-- A layout starts with its tag. -/
theorem Layout.Legal.exists_behind_tag (hl : l.Legal) (rest : List Char) :
    ∃ c behind, (Text.isBlank c = true ∨ c = '>') ∧
      l.written ++ rest = '<' :: (l.tag ++ c :: behind) := by
  rw [l.written_append]
  cases hattributes : l.attributes with
  | nil => exact ⟨'>', _, .inr rfl, rfl⟩
  | cons c attributes =>
    have hapart := hl.apart
    rw [hattributes] at hapart
    exact ⟨c, _, .inl hapart, rfl⟩

/-- **A document starts with a section**, behind filler. -/
theorem exists_section_of_parse (h : parse source = .ok d) :
    ∃ (gap : List Char) (l : Layout) (rest : List Char), Filler gap ∧ l.Legal ∧ l.tag ∈ tags ∧
      source.toList = gap ++ (l.written ++ rest) := by
  obtain ⟨-, found, hcut, hmade⟩ := parseWith_eq_ok_iff.1 h
  obtain ⟨a, -, hperm, -⟩ := ofPassages_eq_ok_iff.1 hmade
  obtain ⟨laid, last, hlaid, hsource, rfl⟩ := passagesFrom_eq_ok_iff.1 hcut
  have hcomplete := a.complete.perm hperm.symm
  cases laid with
  | nil => cases hcomplete.data
  | cons first laid =>
    obtain ⟨gap, l⟩ := first
    obtain ⟨hgap, -⟩ := List.forall_mem_cons.1 hlaid.filled
    obtain ⟨hl, -⟩ := List.forall_mem_cons.1 hlaid.legal
    obtain ⟨htag, -⟩ := List.forall_mem_cons.1 hcomplete.known
    exact ⟨gap, l, _, hgap, hl, ofList_mem_sectionTags_iff.1 htag, hsource⟩

/-- **A document counts as one exactly if no comment leads it.** -/
theorem isDocumentSource_iff_of_parse (h : parse source = .ok d) :
    isDocumentSource source = true ↔ ¬ CommentLeads source := by
  refine ⟨not_commentLeads_of_isDocumentSource, fun hleads => ?_⟩
  obtain ⟨gap, l, rest, hgap, hl, htag, hsource⟩ := exists_section_of_parse h
  rcases hgap.blank_or_comment with hblank | ⟨blanks, more, hblanks, rfl⟩
  · obtain ⟨c, behind, hc, hwritten⟩ := hl.exists_behind_tag rest
    rw [hwritten] at hsource
    exact isDocumentSource_iff.2 ⟨gap, l.tag, c, behind, hblank, htag, hc, hsource⟩
  · refine absurd ⟨blanks, more ++ (l.written ++ rest), hblanks, ?_⟩ hleads
    rw [hsource, List.append_assoc, List.append_assoc]

end Document

namespace Graph

open Document (CommentLeads)

variable {source : String} {d : Document}

/-- Text without tags is shown as it is. -/
theorem tree_text (manner : Render.Manner) (partials : Render.Partials) (scope : Lookup)
    (content : String) (place : Location) :
    Render.tree manner partials [.text content place] scope = .ok content.toList := by
  unfold Render.tree
  cases manner.maxDepth <;>
    simp [Render.showWithin, Render.nodes, Render.node, Except.mapError, bind, Except.bind, pure,
      Except.pure]

/-- **Documents are loaded and shown as documents exactly if no comment leads them.** One
that a comment leads is markup to both, all of its source; without tags of markup in it,
all of its source is what it shows. -/
theorem dispatch_of_parse (h : Document.parse source = .ok d) :
    (Document.isDocumentSource source = true ↔ ¬ CommentLeads source) ∧
    (¬ CommentLeads source →
      (∀ library name, library.fetch name = .ok (some source) →
        Member.load library name =
          .ok ⟨.document d, source, referencesOf (.document d) source⟩) ∧
      ∀ manner partials scope, Render.source manner partials source scope =
        Render.tree manner partials d.template.content scope) ∧
    (CommentLeads source →
      (∀ library name member, library.fetch name = .ok (some source) →
        Member.load library name = .ok member →
          ∃ nodes, Markup.parse source = .ok nodes ∧ member.component = .fragment nodes) ∧
      (∀ manner partials scope nodes, Markup.parse source = .ok nodes →
        Render.source manner partials source scope =
          Render.tree manner partials nodes scope) ∧
      (Markup.Literal source → ∀ manner partials scope,
        Render.source manner partials source scope = .ok source.toList)) := by
  have htold := Document.isDocumentSource_iff_of_parse h
  refine ⟨htold, fun hleads => ?_, fun hleads => ?_⟩
  · have hdocument := htold.2 hleads
    have hcomponent : Component.ofSource source = .ok (.document d) := by
      rw [Component.ofSource, if_pos hdocument, h]
      rfl
    refine ⟨fun library name hfetch => load_eq_ok_iff.2 ⟨hfetch, hcomponent, rfl⟩,
      fun manner partials scope => ?_⟩
    rw [Render.source, shownTree, if_pos hdocument, h]
    rfl
  · have hmarkup : ¬ Document.isDocumentSource source = true := fun hdocument =>
      htold.1 hdocument hleads
    have hshown (manner partials scope) {nodes : List Markup.Node}
        (hnodes : Markup.parse source = .ok nodes) :
        Render.source manner partials source scope = Render.tree manner partials nodes scope := by
      rw [Render.source, shownTree, if_neg hmarkup, hnodes]
      rfl
    refine ⟨fun library name member hfetch hload => ?_,
      fun manner partials scope nodes => hshown manner partials scope,
      fun hliteral manner partials scope => ?_⟩
    · obtain ⟨hfetch', hcomponent, -⟩ := load_eq_ok_iff.1 hload
      rw [hfetch] at hfetch'
      obtain rfl := Option.some.inj (Except.ok.inj hfetch')
      rw [Component.ofSource, if_neg hmarkup] at hcomponent
      obtain ⟨nodes, hnodes, hmade⟩ := Except.map_eq_ok_iff.1 hcomponent
      exact ⟨nodes, hnodes, hmade.symm⟩
    · obtain ⟨place, htext⟩ := Markup.parse_literal hliteral
      rw [hshown manner partials scope htext, tree_text]

/-- A document behind a comment. -/
def headedSource : String :=
  "<!-- header --><data></data><template>x</template>"

/-- The document is one, and is shown with its tags. -/
theorem dispatch_of_parse_headed :
    ∃ d, Document.parse headedSource = .ok d ∧
      Document.isDocumentSource headedSource = false ∧
      ∀ manner partials scope,
        Render.source manner partials headedSource scope = .ok headedSource.toList := by
  have hdocument : (Document.parse headedSource).isOk = true := by decide +kernel
  obtain ⟨d, hd⟩ := Except.exists_eq_ok hdocument
  have hleads : CommentLeads headedSource :=
    ⟨[], " header --><data></data><template>x</template>".toList, rfl, by decide⟩
  have hliteral : Markup.Literal headedSource := ⟨by decide, by decide, by decide⟩
  obtain ⟨htold, -, hmarkup⟩ := dispatch_of_parse hd
  obtain ⟨-, -, hshown⟩ := hmarkup hleads
  exact ⟨d, hd, Bool.eq_false_iff.2 fun h => htold.1 h hleads, hshown hliteral⟩

end Graph

end Trellis
