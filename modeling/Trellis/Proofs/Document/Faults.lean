import Trellis.Proofs.Document.Places
import Trellis.Proofs.Snippet
/-!
# Document — what is shown with a fault

A fault is at a character that stands in a line, or at the end of the text if
sections are missing (`fault_of_parse`). So the snippet of a fault shows the line of
the fault, with a caret below its column, in all cases but two (`snippet_exact`).
Sections that are missing from a text that ends with a line feed are missing behind
its last line: no line and no caret are shown. And below a line number of more than
four digits the caret is to the left of the column, by as many characters as there
are digits more.
-/

namespace Trellis

open Location

namespace Document

variable {source : String} {e : SourceError} {s : Snippet}

/-- That a place is where a text ends that has a line feed for its last character. -/
def EndsBehindBreak (source : String) (place : Location) : Prop :=
  place = start.after source.toList ∧ source.toList.getLast? = some '\n'

/-- **What is shown with a fault.** The snippet is an excerpt of the text around the
fault. It shows the fault, by the fault's line and a caret in the row below this line
and below the column, unless the fault is behind the last line feed of the text or the
number of its line has more than four digits. In the first case sections are missing,
and neither line nor caret is shown. In the second the line is shown, and the one caret
is where it would be below the column if the number had four digits. -/
theorem snippet_exact (h : parse source = .error e ∨ Markup.parse source = .error e)
    (hs : e.snippet = some s) :
    s.Excerpt source e.location ∧
      (s.Shows source e.location ↔
        ¬ EndsBehindBreak source e.location ∧ e.location.line < 10000) ∧
      (EndsBehindBreak source e.location →
        s.Hides ∧ ∃ tags, e.fault = .missingSections tags) ∧
      (¬ EndsBehindBreak source e.location → s.Points (7 + (e.location.column - 1))) := by
  have hcases : s = Snippet.ofSource source e.location.line e.location.column ∧
      (AtCharacter source e.location ∨ source.toList ≠ [] ∧
        e.location = start.after source.toList ∧ ∃ tags, e.fault = .missingSections tags) := by
    rcases h with h | h
    · rcases fault_of_parse h with rfl | ⟨hsnippet, hne, hplace⟩
      · cases hs
      · exact ⟨Option.some.inj (hs.symm.trans hsnippet),
          hplace.imp_right fun hmissing => ⟨hne, hmissing⟩⟩
    · obtain ⟨hplace, hsnippet⟩ := Markup.fault_of_parse h
      exact ⟨Option.some.inj (hs.symm.trans hsnippet), .inl hplace⟩
  obtain ⟨rfl, hplace⟩ := hcases
  have hexcerpt := Snippet.excerpt_ofSource source e.location
  have hhides (hend : EndsBehindBreak source e.location) :
      (Snippet.ofSource source e.location.line e.location.column).Hides :=
    Snippet.hides_ofSource (congrArg Location.line hend.1) hend.2
  have hpoints (hend : ¬ EndsBehindBreak source e.location) :
      (Snippet.ofSource source e.location.line e.location.column).Points
        (7 + (e.location.column - 1)) := by
    rcases hplace with hplace | ⟨hne, hmissing, -⟩
    · exact Snippet.points_of_atCharacter hplace
    · exact Snippet.points_of_end hmissing hne fun hlast => hend ⟨hmissing, hlast⟩
  refine ⟨hexcerpt, ⟨fun hshows => ?_, fun ⟨hend, hline⟩ => ?_⟩, fun hend => ⟨hhides hend, ?_⟩,
    hpoints⟩
  · have hend : ¬ EndsBehindBreak source e.location := fun hend =>
      (hhides hend).not_points hshows.below
    exact ⟨hend, (hpoints hend).below_iff.1 hshows.below⟩
  · exact ⟨hexcerpt, (hpoints hend).below_iff.2 hline⟩
  · rcases hplace with hplace | ⟨-, -, hmissing⟩
    · exact absurd hend.1 hplace.ne_end
    · exact hmissing

/-- A closer without a block, on the last of three lines. -/
def strayCloser : String :=
  "a\né\n \x7b\x7b/if\x7d\x7d\r\n"

/-- The closer is shown. A template that is missing behind a last line feed is not. -/
theorem snippet_exact_strayCloser :
    (∃ e s, Markup.parse strayCloser = .error e ∧ e.snippet = some s ∧
      s.Shows strayCloser e.location) ∧
    ∃ e s, parse "<data></data>\n" = .error e ∧ e.snippet = some s ∧ s.Hides ∧
      ¬ s.Shows "<data></data>\n" e.location := by
  have hcloser : Except.error? (Markup.parse strayCloser) =
      some (SourceError.inSource
        { fault := .unexpectedCloser "if", location := ⟨3, 2, 6, 13⟩ } strayCloser) := by
    decide +kernel
  have hmissing : Except.error? (parse "<data></data>\n") =
      some (SourceError.inSource
        { fault := .missingSections ["template"], location := ⟨2, 1, 14, 14⟩ }
        "<data></data>\n") := by
    decide +kernel
  have hmiddle : ¬ EndsBehindBreak strayCloser ⟨3, 2, 6, 13⟩ := by
    rintro ⟨hend, -⟩
    revert hend
    decide
  have hend : EndsBehindBreak "<data></data>\n" ⟨2, 1, 14, 14⟩ := by
    constructor <;> decide
  obtain ⟨-, hshown, -, -⟩ := snippet_exact (.inr (Except.eq_of_error? hcloser)) rfl
  obtain ⟨-, hunshown, hhides, -⟩ := snippet_exact (.inl (Except.eq_of_error? hmissing)) rfl
  exact ⟨⟨_, _, Except.eq_of_error? hcloser, rfl, hshown.2 ⟨hmiddle, by decide⟩⟩,
    _, _, Except.eq_of_error? hmissing, rfl, (hhides hend).1, fun h => (hunshown.1 h).1 hend⟩

end Document

end Trellis
