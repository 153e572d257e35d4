import Trellis.Markup.Token
/-!
# Markup — from text to tokens

A text falls into pieces: a tag runs from its opening braces to the first
closing ones, and everything up to the next opening braces is literal text.
`lexemes` gives the tokens of the pieces with their places, up to the first
piece that has none. The place a text starts at moves the tokens and changes
nothing else about them.
-/

namespace Trellis

namespace Markup

/-- A stretch of markup that makes one token. -/
inductive Piece where
  | literal (text : List Char)
  | tag (raw : Bool) (inner : List Char)
  deriving DecidableEq, Repr

namespace Piece

/-- The text of a piece. -/
def written : Piece → List Char
  | literal text => text
  | tag raw inner => opening raw ++ inner ++ closing raw

/-- The token of a piece. -/
def token : Piece → Except SourceFault Token
  | literal text => .ok (.text (String.ofList text))
  | tag raw inner => Tag.token raw inner

end Piece

/-- The text up to the next double opening braces, and the rest. -/
def literalRun : List Char → List Char × List Char
  | [] => ([], [])
  | '{' :: '{' :: cs => ([], '{' :: '{' :: cs)
  | c :: cs =>
    let (text, rest) := literalRun cs
    (c :: text, rest)

/-- The tag whose opening braces were read, and the rest; or the fault that
its closing braces are missing. -/
def tagPiece (raw : Bool) (cs : List Char) : Except SourceFault (Piece × List Char) :=
  match Text.cut? (closing raw) cs with
  | some (inner, rest) => .ok (.tag raw inner, rest)
  | none => .error (.unclosedExpression (String.ofList (closing raw)))

/-- The first piece of a text and the rest. -/
def firstPiece (cs : List Char) : Except SourceFault (Piece × List Char) :=
  match cs with
  | '{' :: '{' :: '{' :: cs => tagPiece true cs
  | '{' :: '{' :: cs => tagPiece false cs
  | cs =>
    let (text, rest) := literalRun cs
    .ok (.literal text, rest)

/-- A cut leaves no more than there was. -/
theorem length_of_cut? {needle cs before rest : List Char}
    (h : Text.cut? needle cs = some (before, rest)) : rest.length ≤ cs.length := by
  rw [Text.eq_of_cut? h]
  simp only [List.length_append]
  omega

/-- A run leaves no more than there was. -/
theorem length_literalRun (cs : List Char) : (literalRun cs).2.length ≤ cs.length := by
  fun_induction literalRun cs with
  | case1 => simp
  | case2 cs => simp
  | case3 c cs _ text rest h ih =>
    have := congrArg (fun p => p.2.length) h
    simp only [List.length_cons] at this ⊢
    omega

/-- **Every piece takes something.** -/
theorem length_of_firstPiece {cs rest : List Char} {piece : Piece} (hne : cs ≠ [])
    (h : firstPiece cs = .ok (piece, rest)) : rest.length < cs.length := by
  have tagged {raw : Bool} {inner : List Char} (h : tagPiece raw inner = .ok (piece, rest)) :
      rest.length ≤ inner.length := by
    unfold tagPiece at h
    split at h
    · next hcut =>
      obtain ⟨-, rfl⟩ := Prod.mk.inj (Except.ok.inj h)
      exact length_of_cut? hcut
    · cases h
  unfold firstPiece at h
  split at h
  · have := tagged h
    simp only [List.length_cons]
    omega
  · have := tagged h
    simp only [List.length_cons]
    omega
  · next hthree htwo =>
    obtain ⟨-, rfl⟩ := Prod.mk.inj (Except.ok.inj h)
    match cs, hne with
    | c :: cs, _ =>
      unfold literalRun
      split
      · next heq => cases heq
      · next heq => exact absurd heq (htwo _)
      · next heq =>
        obtain ⟨rfl, rfl⟩ := List.cons.inj heq
        have := length_literalRun cs
        simp only [List.length_cons]
        omega

/-- The tokens of a text up to its first fault. -/
structure Lexing where
  /-- The tokens, in order. -/
  lexemes : List Lexeme
  /-- The fault behind them, if the text has one. -/
  stopped : Option SourceError
  deriving DecidableEq, Repr

/-- The tokens of a text that starts at a place. -/
def lexemes (place : Location) (cs : List Char) : Lexing :=
  if _hne : cs = [] then ⟨[], none⟩
  else
    match _h : firstPiece cs with
    | .error fault => ⟨[], some { fault, location := place }⟩
    | .ok (piece, rest) =>
      match piece.token with
      | .error fault => ⟨[], some { fault, location := place }⟩
      | .ok token =>
        let behind := place.after piece.written
        let more := lexemes behind rest
        ⟨⟨token, place.upTo behind.offset⟩ :: more.lexemes, more.stopped⟩
termination_by cs.length
decreasing_by exact length_of_firstPiece _hne _h

/-- **The tokens of a text in a larger source**, from the place where the text
starts in it. -/
def tokenize (text : String) (origin : Location) : Lexing :=
  lexemes (origin.upTo origin.offset) text.toList

/-- The names of the partials that a text mentions, each once, in the order of
their first mention. Blocks need not match. -/
def mentionedPartials (text : String) : Except SourceError (List String) :=
  let lexing := tokenize text .start
  match lexing.stopped with
  | some e => .error e
  | none =>
    .ok (Text.distinct (lexing.lexemes.filterMap fun lexeme =>
      match lexeme.token with
      | .inclusion name => some name
      | _ => none))

end Markup

end Trellis
