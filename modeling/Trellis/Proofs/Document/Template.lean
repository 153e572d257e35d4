import Trellis.Proofs.Document.Roles
import Trellis.Proofs.Document.Scanning
/-!
# Document — the template of a source

The text of a document's template is a passage of its source, so it is shorter
than the source and has the tree that the document shows
(`template_of_parse`).
-/

namespace Trellis

namespace Document

variable {source : String} {place : Location} {cs : List Char} {p : Passage}
  {found : List Passage} {d : Document}

/-- **The content of a passage is shorter than the text it is in.** -/
theorem length_content_of_mem_passagesFrom (h : passagesFrom place cs = .ok found) (hp : p ∈ found) :
    p.content.toList.length < cs.length := by
  obtain ⟨laid, last, hlaid, rfl, rfl⟩ := passagesFrom_eq_ok_iff.1 h
  obtain ⟨before, l, behind, -, hwritten, rfl⟩ := hlaid.exists_of_mem hp
  rw [hwritten, l.written_append]
  simp only [Layout.passage, String.toList_ofList, List.length_append, List.length_cons]
  omega

theorem mem_of_filling? {role kind : SectionKind} (h : filling? role found = some (kind, p)) :
    p ∈ found :=
  (mem_knownPassages_iff.1 (List.mem_of_find?_eq_some h)).1

/-- **The sections of a document are passages of its text.** -/
theorem sections_of_assemble (h : assemble found = .ok d) :
    (∃ kind, ∃ p ∈ found, d.data = textSection (kind, p)) ∧
      (∃ kind, ∃ p ∈ found, ∃ content, Markup.parseAt p.content p.contentLocation = .ok content ∧
        d.template = sectionOf kind p content) ∧
      ∀ s ∈ d.logic, ∃ kind, ∃ p ∈ found, s = textSection (kind, p) := by
  unfold assemble at h
  split at h
  · next data kind p hdata htemplate =>
    obtain ⟨content, hparse, hmade⟩ := Except.bind_eq_ok_iff.1 h
    obtain rfl := Except.ok.inj hmade
    refine ⟨⟨data.1, data.2, mem_of_filling? hdata, rfl⟩,
      ⟨kind, p, mem_of_filling? htemplate, content, hparse, rfl⟩, ?_⟩
    intro s hs
    obtain ⟨filled, hlogic, rfl⟩ := Option.map_eq_some_iff.1 hs
    exact ⟨filled.1, filled.2, mem_of_filling? hlogic, rfl⟩
  · cases h

/-- A parsed source is put together from its passages. -/
theorem exists_passages_of_parse (h : parse source = .ok d) :
    ∃ found, passages source = .ok found ∧ assemble found = .ok d := by
  obtain ⟨-, found, hcut, hmade⟩ := parseWith_eq_ok_iff.1 h
  obtain ⟨-, -, hassemble⟩ := Except.bind_eq_ok_iff.1 hmade
  exact ⟨found, hcut, hassemble⟩

/-- **The template of a parsed source** has its tree, and is shorter than the
source. -/
theorem template_of_parse (h : parse source = .ok d) :
    (∃ origin, Markup.parseAt d.template.raw origin = .ok d.template.content) ∧
      d.template.raw.toList.length < source.toList.length := by
  obtain ⟨found, hcut, hassemble⟩ := exists_passages_of_parse h
  obtain ⟨-, ⟨kind, p, hp, content, hparse, htemplate⟩, -⟩ := sections_of_assemble hassemble
  rw [htemplate]
  exact ⟨⟨p.contentLocation, hparse⟩, length_content_of_mem_passagesFrom hcut hp⟩

end Document

end Trellis
