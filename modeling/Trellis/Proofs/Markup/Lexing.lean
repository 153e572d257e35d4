import Trellis.Markup.Parser
import Trellis.Proofs.Text.Distinct
/-!
# Markup — the partials of a text that has a tree

A text that has a tree has no fault in its tokens, wherever it stands in a
larger source. So what shows a tree also tells which partials it mentions
(`mentionedPartials_eq`): each name that a token includes, once, in the order
of the first mentions.
-/

namespace Trellis

namespace Markup

variable {text : String} {origin place : Location} {cs rest : List Char}

/-- The partial that a token includes. -/
def Token.included? : Token → Option String
  | .inclusion name => some name
  | _ => none

/-- The partials that the tokens of a text include, one for each mention. -/
def mentions (text : String) : List String :=
  (tokenize text .start).lexemes.filterMap fun lexeme => lexeme.token.included?

/-- Tokens are read piece by piece. -/
theorem lexemes_of_ne_nil (place : Location) (hne : cs ≠ []) :
    lexemes place cs =
      match firstPiece cs with
      | .error fault => ⟨[], some { fault, location := place }⟩
      | .ok (piece, rest) =>
        match piece.token with
        | .error fault => ⟨[], some { fault, location := place }⟩
        | .ok token =>
          let behind := place.after piece.written
          let more := lexemes behind rest
          ⟨⟨token, place.upTo behind.offset⟩ :: more.lexemes, more.stopped⟩ := by
  rw [lexemes, dif_neg hne]
  split
  · next heq => rw [heq]
  · next piece rest heq =>
    cases htoken : piece.token <;> simp only [heq, htoken]

/-- **Where a text stands moves its tokens and changes nothing else**: neither
what they are nor the fault behind them. -/
theorem lexemes_elsewhere (place place' : Location) (cs : List Char) :
    (lexemes place cs).lexemes.map Lexeme.token = (lexemes place' cs).lexemes.map Lexeme.token ∧
      (lexemes place cs).stopped.map SourceError.fault =
        (lexemes place' cs).stopped.map SourceError.fault := by
  -- each piece takes something, so the induction is on the length of the text
  induction hlen : cs.length using Nat.strongRecOn generalizing place place' cs with
  | ind n ih =>
    by_cases hne : cs = []
    · rw [lexemes, dif_pos hne, lexemes, dif_pos hne]
      exact ⟨rfl, rfl⟩
    · rw [lexemes_of_ne_nil place hne, lexemes_of_ne_nil place' hne]
      cases hpiece : firstPiece cs with
      | error fault => exact ⟨rfl, rfl⟩
      | ok found =>
        obtain ⟨piece, rest⟩ := found
        have hshorter : rest.length < n := hlen ▸ length_of_firstPiece hne hpiece
        dsimp only
        cases htoken : piece.token with
        | error fault => exact ⟨rfl, rfl⟩
        | ok token =>
          obtain ⟨htokens, hstopped⟩ := ih rest.length hshorter (place.after piece.written)
            (place'.after piece.written) rest rfl
          refine ⟨?_, hstopped⟩
          rw [List.map_cons, List.map_cons, htokens]

/-- There are no more tokens than characters. -/
theorem length_lexemes_le (place : Location) (cs : List Char) :
    (lexemes place cs).lexemes.length ≤ cs.length := by
  induction hlen : cs.length using Nat.strongRecOn generalizing place cs with
  | ind n ih =>
    by_cases hne : cs = []
    · rw [lexemes, dif_pos hne]
      exact Nat.zero_le n
    · rw [lexemes_of_ne_nil _ hne]
      split
      · exact Nat.zero_le n
      · next piece rest hpiece =>
        split
        · exact Nat.zero_le n
        · have hshorter : rest.length < n := hlen ▸ length_of_firstPiece hne hpiece
          have hmore := ih rest.length hshorter (place.after piece.written) rest rfl
          simp only [List.length_cons]
          omega

theorem length_mentions_le (text : String) : (mentions text).length ≤ text.toList.length :=
  Nat.le_trans (List.length_filterMap_le _ _) (length_lexemes_le _ text.toList)

/-- The mentions of a text are the same wherever it stands. -/
theorem mentions_eq (text : String) (origin : Location) :
    (tokenize text origin).lexemes.filterMap (fun lexeme => lexeme.token.included?) =
      mentions text := by
  have hsame := (lexemes_elsewhere (origin.upTo origin.offset) (Location.start.upTo 0)
    text.toList).1
  have hmap (ls : List Lexeme) :
      ls.filterMap (fun lexeme => lexeme.token.included?) =
        (ls.map Lexeme.token).filterMap Token.included? := by
    rw [List.filterMap_map]
    rfl
  unfold mentions
  rw [hmap, hmap]
  exact congrArg (List.filterMap Token.included?) hsame

/-- A text that has a tree has no fault in its tokens. -/
theorem stopped_of_parseAt {nodes : List Node} (h : parseAt text origin = .ok nodes)
    (place : Location) : (tokenize text place).stopped = none := by
  unfold parseAt treeOf at h
  split at h
  · cases h
  · split at h
    · cases h
    · next hstopped =>
      have hsame := (lexemes_elsewhere (place.upTo place.offset) (origin.upTo origin.offset)
        text.toList).2
      unfold tokenize at hstopped ⊢
      rw [hstopped] at hsame
      exact Option.map_eq_none_iff.1 hsame

/-- **A text that has a tree mentions the partials of its tokens**, each once. -/
theorem mentionedPartials_eq {nodes : List Node} (h : parseAt text origin = .ok nodes) :
    mentionedPartials text = .ok (mentions text).eraseDups := by
  have hstopped := stopped_of_parseAt h .start
  unfold mentionedPartials
  simp only [hstopped, Text.distinct_eq_eraseDups]
  rfl

end Markup

end Trellis
