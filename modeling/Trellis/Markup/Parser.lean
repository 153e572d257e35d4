import Trellis.Markup.Lexer
import Trellis.Markup.Node
/-!
# Markup — from tokens to the tree

Tokens are read from the left against a stack of open blocks. A closer ends the
innermost block if it is of its kind, and `else` starts the other branch of an
`if` that has none yet; any other closer or `else` is a fault at its own place.
Text that ends inside blocks is a fault at the innermost opener. Since the
stack is all that a prefix leaves behind, the first token that no continuation
could make good is the one blamed.
-/

namespace Trellis

namespace Markup

/-- An open block: what its opener said, the nodes before it, and the finished
branch once `else` was read. -/
structure Frame where
  /-- The kind of the block. -/
  kind : BlockKind
  /-- The argument of its opener. -/
  argument : String
  /-- The range of its opener. -/
  openedAt : Location
  /-- The nodes before the block on its level, the last one first. -/
  before : List Node
  /-- The branch before `else`, once that was read. -/
  body : Option (List Node)

/-- The block that a frame becomes with the nodes of its last branch and the
end of its closer. -/
def Frame.close (f : Frame) (nodes : List Node) (endOffset : Nat) : Node :=
  let location := f.openedAt.upTo endOffset
  match f.kind with
  | .conditional =>
    match f.body with
    | some body => .conditional f.argument body nodes location
    | none => .conditional f.argument nodes [] location
  | .negated => .negated f.argument nodes location
  | .loop => .loop f.argument nodes location

/-- A tree in the making: the nodes of the innermost open level, the last one
first, and the open blocks, the innermost one first. -/
structure Draft where
  /-- The nodes of the innermost level, the last one first. -/
  nodes : List Node
  /-- The open blocks, the innermost one first. -/
  frames : List Frame

namespace Draft

/-- Nothing read yet. -/
def empty : Draft := ⟨[], []⟩

/-- The draft with a node more on its innermost level. -/
def add (d : Draft) (node : Node) : Draft :=
  { d with nodes := node :: d.nodes }

/-- The draft after one more token. -/
def step (d : Draft) (lexeme : Lexeme) : Except SourceError Draft :=
  let place := lexeme.location
  match lexeme.token with
  | .text content => .ok (d.add (.text content place))
  | .placeholder name raw => .ok (d.add (.placeholder name raw place))
  | .inclusion name => .ok (d.add (.inclusion name place))
  | .opener kind argument => .ok ⟨[], ⟨kind, argument, place, d.nodes, none⟩ :: d.frames⟩
  | .otherwise =>
    match d.frames with
    | ⟨.conditional, argument, openedAt, before, none⟩ :: frames =>
      .ok ⟨[], ⟨.conditional, argument, openedAt, before, some d.nodes.reverse⟩ :: frames⟩
    | _ => .error { fault := .unexpectedElse, location := place }
  | .closer kind =>
    let unexpected : SourceError := { fault := .unexpectedCloser kind.keyword, location := place }
    match d.frames with
    | frame :: frames =>
      if frame.kind = kind then
        .ok ⟨frame.close d.nodes.reverse place.endOffset :: frame.before, frames⟩
      else .error unexpected
    | [] => .error unexpected

/-- The tree of a draft without open blocks. -/
def finish (d : Draft) : Except SourceError (List Node) :=
  match d.frames with
  | [] => .ok d.nodes.reverse
  | frame :: _ =>
    .error { fault := .unclosedBlock frame.kind.keyword frame.openedAt, location := frame.openedAt }

end Draft

/-- The tree of a sequence of tokens and the fault that it stopped at. -/
def treeOf (lexing : Lexing) : Except SourceError (List Node) :=
  match lexing.lexemes.foldlM Draft.step Draft.empty with
  | .error e => .error e
  | .ok draft =>
    match lexing.stopped with
    | some e => .error e
    | none => draft.finish

/-- **The tree of a text in a larger source.** All places are places of that
source. -/
def parseAt (text : String) (origin : Location) : Except SourceError (List Node) :=
  treeOf (tokenize text origin)

/-- **The tree of a text.** A fault comes with the lines around it. -/
def parse (text : String) : Except SourceError (List Node) :=
  (parseAt text .start).mapError fun e => e.inSource text

end Markup

end Trellis
