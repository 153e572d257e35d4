import Trellis.Proofs.Document.Roles
import Trellis.Proofs.Document.Template
import Trellis.Proofs.Markup.Places
import Trellis.Proofs.Render.Depth
import Trellis.View
/-!
# Document — where sections, nodes and faults are

The scan for passages starts at the place where the source does, and the markup of
a template starts where the template's content does. So all places are places of
the whole source: sections and nodes have the ranges of their texts, and faults
are where the source can be looked up (`places_exact`). Faults are at a character of
their line, but for sections that are missing where the text ends (`fault_of_parse`).
-/

namespace Trellis

namespace Document

open Location

variable {source : String} {place : Location} {cs : List Char} {found : List Passage} {p : Passage}
  {out : Except SourceError (List Passage)} {e : SourceError} {d : Document}

/-! ## Passages -/

/-- **A found passage stands in the source**, and so does its content. -/
theorem exists_layout_of_passages (h : passages source = .ok found) (hp : p ∈ found) :
    ∃ l : Layout, l.Legal ∧ p.content = String.ofList l.content ∧
      Covers source p.location l.written ∧
      ∃ place, Holds source place l.content ∧
        p.contentLocation = place.upTo (place.after l.content).offset := by
  obtain ⟨laid, last, hlaid, hsource, rfl⟩ := passagesFrom_eq_ok_iff.1 h
  obtain ⟨before, l, behind, hl, hwritten, rfl⟩ := hlaid.exists_of_mem hp
  have hheld : Holds source (start.after before) l.written :=
    ⟨before, behind, hsource.trans hwritten, rfl⟩
  refine ⟨l, hl, rfl, ?_, (start.after before).after l.opening, hheld.left.right, ?_⟩
  · have hcovers := hheld.covers
    rw [offset_after] at hcovers
    exact hcovers
  · rw [offset_after, offset_after]
    rfl

/-- **The scan stops at a character.** -/
theorem Scans.atCharacter (h : Scans place cs out) (hheld : Holds source place cs)
    (hout : out = .error e) : AtCharacter source e.location := by
  have htag : '<' ≠ '\n' := by decide
  induction h with
  | done => cases hout
  | @blank place c cs out _ _ ih =>
    have hrest : Holds source place ([c] ++ cs) := hheld
    exact ih hrest.right hout
  | @comment place cs comment behind out _ hcut _ ih =>
    have hrest : Holds source place (comment ++ "-->".toList ++ behind) := by
      rw [← Text.eq_of_cut? hcut]
      exact hheld
    exact ih hrest.right hout
  | openComment =>
    cases hout
    exact hheld.atCharacter htag
  | @passage place cs taken out _ htakes _ ih =>
    have hrest : Holds source place (taken.written ++ taken.rest) := by
      rw [← eq_of_takePassage htakes]
      exact hheld
    cases out with
    | ok more => cases hout
    | error e' =>
      obtain rfl : e' = e := by
        injection hout
      exact ih hrest.right rfl
  | refused _ hrefused =>
    cases hout
    rw [location_of_takePassage hrefused]
    exact hheld.atCharacter htag
  | stray hblank =>
    cases hout
    refine hheld.atCharacter ?_
    rintro rfl
    revert hblank
    decide

/-- A passage is at its opening tag. -/
theorem atCharacter_of_mem_passages (h : passages source = .ok found) (hp : p ∈ found) :
    AtCharacter source p.location := by
  obtain ⟨l, -, -, hcovers, -⟩ := exists_layout_of_passages h hp
  exact hcovers.atCharacter (by decide)

/-- Where the text of a passage stands, it is read from its content's place on. -/
theorem holds_content (h : passages source = .ok found) (hp : p ∈ found) :
    Holds source (p.contentLocation.upTo p.contentLocation.offset) p.content.toList ∧
      Covers source p.contentLocation p.content.toList ∧
      p.contentLocation.endOffset =
        ((p.contentLocation.upTo p.contentLocation.offset).after p.content.toList).offset := by
  obtain ⟨l, -, hcontent, -, place, hheld, hplace⟩ := exists_layout_of_passages h hp
  have hpoint : (place.upTo (place.after l.content).offset).upTo place.offset = place :=
    hheld.upTo_offset
  have hoffset : (place.upTo (place.after l.content).offset).offset = place.offset := rfl
  rw [hcontent, String.toList_ofList, hplace, hoffset, hpoint]
  exact ⟨hheld, hheld.covers, rfl⟩

/-! ## Faults of documents -/

/-- Passages that clash are passages. -/
theorem mem_of_mem_clashes {clash : String × Passage} (h : clash ∈ clashes found) :
    clash.2 ∈ found := by
  obtain ⟨⟨before, q⟩, hq, hclash⟩ := List.mem_filterMap.1 h
  obtain ⟨name, -, rfl⟩ := Option.map_eq_some_iff.1 hclash
  exact (List.of_mem_zip hq).2

/-- **Passages are refused at a character, or at the end of the text if some are
missing.** -/
theorem Refused.atCharacter_or_missing (hfound : passages source = .ok found)
    (h : Refused source found e) :
    AtCharacter source e.location ∨
      e.location = start.after source.toList ∧ ∃ tags, e.fault = .missingSections tags := by
  cases h with
  | @unknown first rest hunknown =>
    have hmem : first ∈ found.filter fun p => p.tag ∉ sectionTags := by
      rw [hunknown]
      exact List.mem_cons_self
    exact .inl (atCharacter_of_mem_passages hfound (List.mem_of_mem_filter hmem))
  | @repeated name first rest _ hclashes =>
    have hmem : (name, first) ∈ clashes found := by
      rw [hclashes]
      exact List.mem_cons_self
    exact .inl (atCharacter_of_mem_passages hfound (mem_of_mem_clashes hmem))
  | missing => exact .inr ⟨rfl, _, rfl⟩
  | template _ hp _ hparse =>
    exact .inl (Markup.atCharacter_of_parseAt (holds_content hfound hp).1 hparse)

/-- **A text that is no document is blank or refused at a character**, or at its end if
sections are missing. A text that is not blank is refused with the lines around the
fault. -/
theorem fault_of_parse (h : parse source = .error e) :
    e = { fault := .emptyDocument, location := start } ∨
      e.snippet = some (Snippet.ofSource source e.location.line e.location.column) ∧
        source.toList ≠ [] ∧ (AtCharacter source e.location ∨
          e.location = start.after source.toList ∧ ∃ tags, e.fault = .missingSections tags) := by
  unfold parse parseWith at h
  split at h
  · exact .inl (Except.error.inj h).symm
  · next hblank =>
    have hne : source.toList ≠ [] := by
      intro hnil
      rw [hnil] at hblank
      exact hblank rfl
    obtain ⟨cause, hcause, rfl⟩ := Except.mapError_eq_error_iff.1 h
    have hplace : AtCharacter source cause.location ∨ cause.location = start.after source.toList ∧
        ∃ tags, cause.fault = .missingSections tags := by
      rcases Except.bind_eq_error_iff.1 hcause with hscan | ⟨found, hfound, hrefused⟩
      · exact .inl ((passagesFrom_eq_iff.1 hscan).atCharacter (holds_start source) rfl)
      · exact (ofPassages_eq_error_iff.1 hrefused).atCharacter_or_missing hfound
    exact .inr ⟨rfl, hne, hplace⟩

/-- **A text that is no document is refused at a place of it.** -/
theorem isPlaceIn_of_parse (h : parse source = .error e) : IsPlaceIn source e.location := by
  rcases fault_of_parse h with rfl | ⟨-, -, hplace | ⟨hend, -⟩⟩
  · exact (holds_start source).isPlaceIn_self
  · exact hplace.isPlaceIn
  · have hall : Holds source start (source.toList ++ []) := by
      rw [List.append_nil]
      exact holds_start source
    rw [hend]
    exact hall.right.isPlaceIn_self

/-! ## What a document holds -/

/-- The sections of a document. -/
def sections (d : Document) : List Section :=
  d.data :: d.template :: d.logic.toList

/-- **Every section is a passage of the source**, and its nodes stand where they
were read. -/
theorem stands_of_parse (h : parse source = .ok d) :
    ∀ s ∈ d.sections,
      (∃ l : Layout, l.Legal ∧ s.raw = String.ofList l.content ∧ Covers source s.location l.written) ∧
        ∀ n ∈ Markup.Node.flatAll s.content, n.Stands source := by
  obtain ⟨found, hfound, hassemble⟩ := exists_passages_of_parse h
  obtain ⟨⟨kind, p, hp, hdata⟩, ⟨kind', q, hq, content, hparse, htemplate⟩, hlogic⟩ :=
    sections_of_assemble hassemble
  have hsection {p : Passage} (hp : p ∈ found) (kind : SectionKind) (content : List Markup.Node) :
      ∃ l : Layout, l.Legal ∧ (sectionOf kind p content).raw = String.ofList l.content ∧
        Covers source (sectionOf kind p content).location l.written := by
    obtain ⟨l, hl, hcontent, hcovers, -⟩ := exists_layout_of_passages hfound hp
    exact ⟨l, hl, hcontent, hcovers⟩
  have htext {p : Passage} (hp : p ∈ found) :
      ∀ n ∈ Markup.Node.flatAll [.text p.content p.contentLocation], n.Stands source :=
    List.forall_mem_singleton.2 ⟨p.content.toList, (holds_content hfound hp).2.1, rfl⟩
  refine List.forall_mem_cons.2 ⟨?_, List.forall_mem_cons.2 ⟨?_, ?_⟩⟩
  · rw [hdata]
    exact ⟨hsection hp kind _, htext hp⟩
  · rw [htemplate]
    exact ⟨hsection hq kind' content,
      Markup.stands_of_parseAt (holds_content hfound hq).1 hparse⟩
  · intro s hs
    obtain ⟨kind, p, hp, rfl⟩ := hlogic s (Option.mem_toList.1 hs)
    exact ⟨hsection hp kind _, htext hp⟩

/-- **The tokens of a template** lie side by side over its content, and each stands
where it was read. -/
theorem tiles_of_parse (h : parse source = .ok d) :
    ∃ place, Covers source place d.template.raw.toList ∧
      Markup.parseAt d.template.raw place = .ok d.template.content ∧
      Markup.Tiles place.offset place.endOffset (Markup.tokenize d.template.raw place).lexemes ∧
      ∀ x ∈ (Markup.tokenize d.template.raw place).lexemes, ∃ piece : Markup.Piece,
        Covers source x.location piece.written ∧ piece.token = .ok x.token := by
  obtain ⟨found, hfound, hassemble⟩ := exists_passages_of_parse h
  obtain ⟨-, ⟨kind, p, hp, content, hparse, htemplate⟩, -⟩ := sections_of_assemble hassemble
  obtain ⟨hheld, hcovers, hend⟩ := holds_content hfound hp
  rw [htemplate]
  refine ⟨p.contentLocation, hcovers, hparse, ?_, ?_⟩
  · rw [hend]
    exact Markup.tiles_of_parseAt hparse
  · intro x hx
    exact Markup.covers_of_mem_lexemes hheld (Markup.lexemes_of_parseAt hparse) hx

/-! ## Data sections -/

variable {maker : View.Maker} {layers : Layers} {name : String} {member : Member}

/-- **A data section that has no tree is refused at a place of its source.** -/
theorem isPlaceIn_of_evaluate (hparse : parse member.source = .ok d)
    (h : View.evaluate maker layers name member d = .error (.rendering (.source e))) :
    IsPlaceIn member.source e.location := by
  obtain ⟨found, hfound, hassemble⟩ := exists_passages_of_parse hparse
  obtain ⟨⟨kind, p, hp, hdata⟩, -, -⟩ := sections_of_assemble hassemble
  unfold View.evaluate at h
  rcases Except.bind_eq_error_iff.1 h with hread | ⟨nodes, -, hshow⟩
  · obtain ⟨cause, hcause, heq⟩ := Except.mapError_eq_error_iff.1 hread
    rw [hdata] at hcause
    have hplace := Markup.isPlaceIn_of_parseAt (holds_content hfound hp).1 hcause
    obtain rfl : cause.inSource member.source = e := by
      injection heq with heq
      injection heq
    exact hplace
  -- showing a data section and decoding it fails in other ways
  · exfalso
    rcases Except.bind_eq_error_iff.1 hshow with hrender | ⟨text, -, hdecode⟩
    · obtain ⟨cause, hcause, heq⟩ := Except.mapError_eq_error_iff.1 hrender
      rcases Render.failure_of_showWithin hcause with
        ⟨_, _, rfl⟩ | ⟨_, _, rfl⟩ | ⟨_, _, _, hserved, -⟩
      · cases heq
      · cases heq
      · cases hserved
    · obtain ⟨cause, -, heq⟩ := Except.mapError_eq_error_iff.1 hdecode
      cases heq

/-- **Every place is a place of the whole source, and exact.** -/
theorem places_exact :
    (∀ (source : String) (d : Document), parse source = .ok d →
      (∃ place, Covers source place d.template.raw.toList ∧
        Markup.parseAt d.template.raw place = .ok d.template.content ∧
        Markup.Tiles place.offset place.endOffset (Markup.tokenize d.template.raw place).lexemes ∧
        ∀ x ∈ (Markup.tokenize d.template.raw place).lexemes, ∃ piece : Markup.Piece,
          Covers source x.location piece.written ∧ piece.token = .ok x.token) ∧
      ∀ s ∈ d.sections,
        (∃ l : Layout, l.Legal ∧ s.raw = String.ofList l.content ∧
          Covers source s.location l.written) ∧
        ∀ n ∈ Markup.Node.flatAll s.content, n.Stands source) ∧
    (∀ (source : String) (e : SourceError), parse source = .error e →
      IsPlaceIn source e.location) ∧
    (∀ (text : String) (e : SourceError), Markup.parse text = .error e →
      IsPlaceIn text e.location) ∧
    ∀ (maker : View.Maker) (layers : Layers) (name : String) (member : Member) (d : Document)
      (e : SourceError), parse member.source = .ok d →
        View.evaluate maker layers name member d = .error (.rendering (.source e)) →
          IsPlaceIn member.source e.location := by
  refine ⟨fun source d h => ⟨tiles_of_parse h, stands_of_parse h⟩,
    fun source e h => isPlaceIn_of_parse h, fun text e h => ?_,
    fun maker layers name member d e hparse h => isPlaceIn_of_evaluate hparse h⟩
  obtain ⟨cause, hcause, rfl⟩ := Except.mapError_eq_error_iff.1 h
  have hheld : Holds text (start.upTo start.offset) text.toList := holds_start text
  have hplace := Markup.isPlaceIn_of_parseAt hheld hcause
  exact hplace

/-- The fault of a source that stopped a data section. -/
def sourceError? : Except Failure Json.Value → Option SourceError
  | .error (.rendering (.source e)) => some e
  | _ => none

theorem eq_of_sourceError? {x : Except Failure Json.Value} (h : sourceError? x = some e) :
    x = .error (.rendering (.source e)) := by
  unfold sourceError? at h
  split at h
  · rw [Option.some.inj h]
  · cases h

/-- A document whose template has a tree and whose data has none: the block that it
opens behind a line of its own is not closed. -/
def noteSource : String :=
  "<data>\n\"é\" \x7b\x7b#if a\x7d\x7d</data>\n" ++
    "<template>é\n\x7b\x7b#each b\x7d\x7dx\x7b\x7b/each\x7d\x7d</template>"

theorem places_exact_note :
    (∃ d, parse noteSource = .ok d ∧
      (∀ s ∈ d.sections, ∀ n ∈ Markup.Node.flatAll s.content, n.Stands noteSource) ∧
      ∃ e, View.evaluate {} {} "note" ⟨.document d, noteSource, []⟩ d =
          .error (.rendering (.source e)) ∧ IsPlaceIn noteSource e.location) ∧
    (∃ e, parse "<data>é" = .error e ∧ IsPlaceIn "<data>é" e.location) ∧
    ∃ e, Markup.parse "é\n\x7b\x7b/if\x7d\x7d" = .error e ∧
      IsPlaceIn "é\n\x7b\x7b/if\x7d\x7d" e.location := by
  have hdocument : (parse noteSource).isOk = true := by decide +kernel
  have hsection : (parse "<data>é").isOk = false := by decide +kernel
  have htext : (Markup.parse "é\n\x7b\x7b/if\x7d\x7d").isOk = false := by decide +kernel
  have hdata : ((parse noteSource).toOption.bind fun d =>
      sourceError? (View.evaluate {} {} "note" ⟨.document d, noteSource, []⟩ d)).isSome = true := by
    decide +kernel
  obtain ⟨d, hd⟩ := Except.exists_eq_ok hdocument
  rw [hd] at hdata
  obtain ⟨e, he⟩ := Option.isSome_iff_exists.1 hdata
  have hevaluate := eq_of_sourceError? he
  obtain ⟨e₂, he₂⟩ := Except.exists_eq_error hsection
  obtain ⟨e₃, he₃⟩ := Except.exists_eq_error htext
  refine ⟨⟨d, hd, fun s hs => ((places_exact.1 noteSource d hd).2 s hs).2, e, hevaluate, ?_⟩,
    ⟨e₂, he₂, places_exact.2.1 _ e₂ he₂⟩, ⟨e₃, he₃, places_exact.2.2.1 _ e₃ he₃⟩⟩
  exact places_exact.2.2.2 {} {} "note" ⟨.document d, noteSource, []⟩ d e hd hevaluate

end Document

end Trellis
