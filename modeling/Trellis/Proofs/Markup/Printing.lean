import Trellis.Proofs.Markup.Inclusions
import Trellis.Proofs.Text.Blank
import Trellis.Proofs.Text.Cut
/-!
# Markup — trees as they are written

A tree is written as its tags in order, with `else` in front of a second branch
that is not empty. Where the names in it can stand in tags and no literal text
could be taken for a part of a tag (`WellFormed`), reading what was written
gives the tree back, up to the places of its nodes (`parse_writtenAll`). Each
piece is read by itself as long as a tag or the end of the text follows it, so
the proof goes along the tree and carries whatever is written behind it.
-/

namespace Trellis

namespace Markup

/-- The text of a tag in double braces. -/
def tagged (inner : List Char) : List Char :=
  (Piece.tag false inner).written

/-- The opening tag of a block. -/
def BlockKind.openingTag (kind : BlockKind) (argument : String) : List Char :=
  tagged ('#' :: kind.keyword.toList ++ ' ' :: argument.toList)

/-- The closing tag of a block. -/
def BlockKind.closingTag (kind : BlockKind) : List Char :=
  tagged ('/' :: kind.keyword.toList)

/-- The tag between the branches of a condition. -/
def otherwiseTag : List Char :=
  tagged "else".toList

namespace Node

mutual

/-- A node as it is written. -/
def written : Node → List Char
  | text content _ => content.toList
  | placeholder name raw _ => (Piece.tag raw name.toList).written
  | inclusion name _ => tagged ('>' :: ' ' :: name.toList)
  | conditional condition body alternative _ =>
    BlockKind.conditional.openingTag condition ++ writtenAll body ++
      (if alternative.isEmpty then [] else otherwiseTag ++ writtenAll alternative) ++
      BlockKind.conditional.closingTag
  | negated condition body _ =>
    BlockKind.negated.openingTag condition ++ writtenAll body ++ BlockKind.negated.closingTag
  | loop collection body _ =>
    BlockKind.loop.openingTag collection ++ writtenAll body ++ BlockKind.loop.closingTag

/-- Nodes as they are written, one behind the other. -/
def writtenAll : List Node → List Char
  | [] => []
  | node :: nodes => node.written ++ writtenAll nodes

end

mutual

/-- A node with all its places forgotten. -/
def unplaced : Node → Node
  | text content _ => text content .start
  | placeholder name raw _ => placeholder name raw .start
  | inclusion name _ => inclusion name .start
  | conditional condition body alternative _ =>
    conditional condition (unplacedAll body) (unplacedAll alternative) .start
  | negated condition body _ => negated condition (unplacedAll body) .start
  | loop collection body _ => loop collection (unplacedAll body) .start

/-- Nodes with all their places forgotten. -/
def unplacedAll : List Node → List Node
  | [] => []
  | node :: nodes => node.unplaced :: unplacedAll nodes

end

/-- Whether a node is literal text. -/
def isText : Node → Bool
  | text .. => true
  | _ => false

end Node

/-- That a text holds no braces. -/
def Braceless (cs : List Char) : Prop :=
  ∀ c ∈ cs, c ≠ '{' ∧ c ≠ '}'

instance (cs : List Char) : Decidable (Braceless cs) :=
  List.decidableBAll (fun c => c ≠ '{' ∧ c ≠ '}') cs

/-- That a name can stand in a tag: it is not empty, has no blanks at its ends and
holds no braces. -/
structure Plain (name : String) : Prop where
  /-- The name is not empty. -/
  nonempty : name ≠ ""
  /-- Neither end is blank. -/
  trimmed : Text.trim name.toList = name.toList
  /-- No character is a brace. -/
  braceless : Braceless name.toList

/-- That a name in double braces is read as that of a value: it has no sign in
front and is not `else`. -/
structure Unsigned (name : String) : Prop where
  /-- The name is not led by the sign of a partial, an opener or a closer. -/
  signless : name.toList.head? ∉ [some '>', some '#', some '/']
  /-- The name is not `else`. -/
  ne_else : name ≠ "else"

/-- That a text is read as literal text in front of any tag. -/
structure Literal (content : String) : Prop where
  /-- The text is not empty. -/
  nonempty : content ≠ ""
  /-- The text holds no opening braces. -/
  tagless : ¬ opening false <:+: content.toList
  /-- The text does not end in a brace that the next tag could begin with. -/
  closed : content.toList.getLast? ≠ some '{'

/-- **That nodes can be written and read back**: their names can stand in tags,
their texts outside of them, and no two texts stand side by side. -/
inductive WellFormed : List Node → Prop where
  | nil : WellFormed []
  | text {content : String} {place : Location} {rest : List Node} (literal : Literal content)
      (apart : ∀ node ∈ rest.head?, node.isText = false) (more : WellFormed rest) :
      WellFormed (.text content place :: rest)
  | placeholder {name : String} {raw : Bool} {place : Location} {rest : List Node}
      (plain : Plain name) (unsigned : raw = false → Unsigned name) (more : WellFormed rest) :
      WellFormed (.placeholder name raw place :: rest)
  | inclusion {name : String} {place : Location} {rest : List Node}
      (named : isPartialName name.toList = true) (more : WellFormed rest) :
      WellFormed (.inclusion name place :: rest)
  | conditional {condition : String} {body alternative rest : List Node} {place : Location}
      (plain : Plain condition) (within : WellFormed body) (otherwise : WellFormed alternative)
      (more : WellFormed rest) : WellFormed (.conditional condition body alternative place :: rest)
  | negated {condition : String} {body rest : List Node} {place : Location}
      (plain : Plain condition) (within : WellFormed body) (more : WellFormed rest) :
      WellFormed (.negated condition body place :: rest)
  | loop {collection : String} {body rest : List Node} {place : Location}
      (plain : Plain collection) (within : WellFormed body) (more : WellFormed rest) :
      WellFormed (.loop collection body place :: rest)

variable {place : Location} {cs inner rest : List Char} {ls ms : List Lexeme} {ns : List Node}
  {content name argument : String} {raw : Bool} {kind : BlockKind} {token : Token}

/-! ## The tokens of tags -/

theorem Plain.toList_ne_nil (h : Plain name) : name.toList ≠ [] :=
  fun hnil => h.nonempty (String.toList_eq_nil_iff.1 hnil)

/-- Behind a sign a name is left as it is by trimming, whatever stands between. -/
theorem Plain.trim_append (h : Plain name) {c : Char} (hc : Text.isBlank c = false)
    (lead : List Char) : Text.trim (c :: (lead ++ name.toList)) = c :: (lead ++ name.toList) := by
  obtain ⟨-, hend⟩ := Text.trim_eq_self_iff.1 h.trimmed
  refine Text.trim_eq_self_iff.2 ⟨?_, ?_⟩
  · intro d hd
    rwa [← Option.some.inj hd]
  · intro d hd
    rw [← List.cons_append, List.getLast?_append_of_ne_nil _ h.toList_ne_nil] at hd
    exact hend d hd

/-- The name of a partial can stand in a tag. -/
theorem plain_of_isPartialName (h : isPartialName name.toList = true) : Plain name := by
  simp only [isPartialName, Bool.and_eq_true, Bool.not_eq_true', List.isEmpty_eq_false_iff,
    List.all_eq_true, bne_iff_ne] at h
  obtain ⟨hne, hall⟩ := h
  refine ⟨fun hempty => hne (String.toList_eq_nil_iff.2 hempty), ?_, ?_⟩
  · rw [Text.trim_eq_self_iff]
    exact ⟨fun c hc => (hall c (List.mem_of_mem_head? hc)).1.1,
      fun c hc => (hall c (List.mem_of_mem_getLast? hc)).1.1⟩
  · intro c hc
    exact ⟨(hall c hc).1.2, (hall c hc).2⟩

theorem Tag.token_of_trim (h : Text.trim inner = cs) : Tag.token false inner = classified cs := by
  rw [Tag.token, h]
  rfl

theorem token_placeholder (h : Plain name) (hunsigned : raw = false → Unsigned name) :
    Tag.token raw name.toList = .ok (.placeholder name raw) := by
  have hne := h.toList_ne_nil
  cases raw with
  | true => simp [Tag.token, h.trimmed, hne]
  | false =>
    have hname := hunsigned rfl
    have helse : name.toList ≠ "else".toList := fun e => hname.ne_else (String.toList_inj.1 e)
    rw [Tag.token_of_trim h.trimmed]
    obtain ⟨c, cs, hcs⟩ := List.exists_cons_of_ne_nil hne
    have hsign : c ≠ '>' ∧ c ≠ '#' ∧ c ≠ '/' := by simpa [hcs] using hname.signless
    obtain ⟨hpartial, hopener, hcloser⟩ := hsign
    rw [hcs] at helse
    have hclassified : Tag.classified (c :: cs) =
        .ok (.placeholder (String.ofList (c :: cs)) false) := by
      rw [Tag.classified, if_neg hpartial, if_neg hopener, if_neg helse, if_neg hcloser]
    rw [hcs, hclassified, ← hcs, String.ofList_toList]

theorem token_inclusion (h : isPartialName name.toList = true) :
    Tag.token false ('>' :: ' ' :: name.toList) = .ok (.inclusion name) := by
  have hplain := plain_of_isPartialName h
  have htrim : Text.trim ('>' :: ' ' :: name.toList) = '>' :: ' ' :: name.toList :=
    hplain.trim_append (by decide) [' ']
  have hname : Text.trim (' ' :: name.toList) = name.toList := by
    rw [Text.trim_cons_of_isBlank (by decide), hplain.trimmed]
  calc Tag.token false ('>' :: ' ' :: name.toList)
      = Tag.inclusion (' ' :: name.toList) := Tag.token_of_trim htrim
    _ = .ok (.inclusion name) := by
      rw [Tag.inclusion]
      rw [hname, if_pos h, String.ofList_toList]

theorem token_opener (kind : BlockKind) (h : Plain argument) :
    Tag.token false ('#' :: kind.keyword.toList ++ ' ' :: argument.toList) =
      .ok (.opener kind argument) := by
  have hword : kind.keyword.toList.all (fun c => !Text.isBlank c) = true := by
    cases kind <;> decide
  have hkind : BlockKind.ofKeyword? kind.keyword.toList = some kind := by
    cases kind <;> decide
  have htrim : Text.trim ('#' :: kind.keyword.toList ++ ' ' :: argument.toList) =
      '#' :: (kind.keyword.toList ++ ' ' :: argument.toList) := by
    simpa using h.trim_append (show Text.isBlank '#' = false by decide) (kind.keyword.toList ++ [' '])
  have hstart : Text.trimStart (kind.keyword.toList ++ ' ' :: argument.toList) =
      kind.keyword.toList ++ ' ' :: argument.toList := by
    cases kind <;> rfl
  have hkeyword : (kind.keyword.toList ++ ' ' :: argument.toList).takeWhile
      (fun c => !Text.isBlank c) = kind.keyword.toList := by
    rw [List.takeWhile_append_of_pos (List.all_eq_true.1 hword), List.takeWhile_cons_of_neg (by decide),
      List.append_nil]
  have hargument : Text.trim (' ' :: argument.toList) = argument.toList := by
    rw [Text.trim_cons_of_isBlank (by decide), h.trimmed]
  calc Tag.token false ('#' :: kind.keyword.toList ++ ' ' :: argument.toList)
      = Tag.opener (kind.keyword.toList ++ ' ' :: argument.toList) := Tag.token_of_trim htrim
    _ = .ok (.opener kind argument) := by
      simp [Tag.opener, hstart, hkeyword, hkind, hargument, h.toList_ne_nil]

theorem token_otherwise : Tag.token false "else".toList = .ok .otherwise := by
  decide

theorem token_closer (kind : BlockKind) :
    Tag.token false ('/' :: kind.keyword.toList) = .ok (.closer kind) := by
  cases kind <;> decide

/-! ## The pieces of what is written -/

/-- That literal text in front of a text ends there: there is a tag, or nothing. -/
def Breaks (rest : List Char) : Prop :=
  rest = [] ∨ ∃ more, rest = opening false ++ more

theorem Breaks.literalRun_eq (h : Breaks rest) : literalRun rest = ([], rest) := by
  obtain rfl | ⟨more, rfl⟩ := h <;> rfl

/-- Literal text does not begin like a tag, whatever it is put in front of. -/
theorem append_ne_opening (hne : cs ≠ []) (htagless : ¬ opening false <:+: cs)
    (hclosed : cs.getLast? ≠ some '{') (rest more : List Char) :
    cs ++ rest ≠ '{' :: '{' :: more := by
  intro h
  cases cs with
  | nil => exact hne rfl
  | cons c cs =>
    obtain ⟨rfl, htail⟩ := List.cons.inj h
    cases cs with
    | nil => exact hclosed rfl
    | cons d cs =>
      obtain ⟨rfl, -⟩ := List.cons.inj htail
      exact htagless ⟨[], cs, rfl⟩

/-- Literal text runs up to where it ends. -/
theorem literalRun_append (htagless : ¬ opening false <:+: cs) (hclosed : cs.getLast? ≠ some '{')
    (h : Breaks rest) : literalRun (cs ++ rest) = (cs, rest) := by
  induction cs with
  | nil => exact h.literalRun_eq
  | cons c cs ih =>
    have hhead := append_ne_opening (List.cons_ne_nil c cs) htagless hclosed rest
    have hrest : cs.getLast? ≠ some '{' := by
      cases cs with
      | nil => simp
      | cons d cs => simpa using hclosed
    have hrun := ih (fun hpart => htagless (hpart.trans (List.suffix_cons c cs).isInfix)) hrest
    rw [List.cons_append, literalRun.eq_3 _ _ fun more hc hmore => hhead more (by simp [hc, hmore]),
      hrun]

/-- **Literal text is a piece** up to a tag or the end of the text. -/
theorem firstPiece_literal (hliteral : Literal content) (h : Breaks rest) :
    firstPiece (content.toList ++ rest) = .ok (.literal content.toList, rest) := by
  have hne : content.toList ≠ [] :=
    fun hnil => hliteral.nonempty (String.toList_eq_nil_iff.1 hnil)
  have hhead := append_ne_opening hne hliteral.tagless hliteral.closed rest
  rw [firstPiece.eq_3 _ (fun more => hhead ('{' :: more)) hhead,
    literalRun_append hliteral.tagless hliteral.closed h]

/-- **A tag is a piece**, whatever is behind it. -/
theorem firstPiece_tag (raw : Bool) (h : Braceless inner) (rest : List Char) :
    firstPiece ((Piece.tag raw inner).written ++ rest) = .ok (.tag raw inner, rest) := by
  have hclosing : '}' ∉ inner := fun hmem => (h '}' hmem).2 rfl
  cases raw with
  | true =>
    have hcut : Text.cut? (closing true) (inner ++ '}' :: '}' :: '}' :: rest) =
        some (inner, rest) := Text.cut?_of_not_mem hclosing ['}', '}'] rest
    have hpiece : tagPiece true (inner ++ '}' :: '}' :: '}' :: rest) =
        .ok (.tag true inner, rest) := by
      rw [tagPiece, hcut]
    simpa [Piece.written, opening, closing, firstPiece] using hpiece
  | false =>
    have hcut : Text.cut? (closing false) (inner ++ '}' :: '}' :: rest) =
        some (inner, rest) := Text.cut?_of_not_mem hclosing ['}'] rest
    have hpiece : tagPiece false (inner ++ '}' :: '}' :: rest) = .ok (.tag false inner, rest) := by
      rw [tagPiece, hcut]
    -- a third opening brace would have to stand in the tag
    cases inner with
    | nil => exact hpiece
    | cons c inner =>
      have hc : c ≠ '{' := (h c List.mem_cons_self).1
      simpa [Piece.written, opening, closing, firstPiece, hc] using hpiece

/-! ## The tokens of what is written -/

/-- That a text in front of another is read, wherever it stands, as tokens with a
property, and the other behind it as if it stood there alone. -/
def Gives (cs rest : List Char) (P : List Lexeme → Prop) : Prop :=
  ∀ place, ∃ ls, P ls ∧ lexemes place (cs ++ rest) =
    ⟨ls ++ (lexemes (place.after cs) rest).lexemes, (lexemes (place.after cs) rest).stopped⟩

variable {a b : List Char} {P Q : List Lexeme → Prop}

theorem gives_nil (rest : List Char) (h : P []) : Gives [] rest P :=
  fun _ => ⟨[], h, rfl⟩

theorem Gives.mono (h : Gives cs rest P) (hmono : ∀ ls, P ls → Q ls) : Gives cs rest Q := by
  intro place
  obtain ⟨ls, hls, hread⟩ := h place
  exact ⟨ls, hmono ls hls, hread⟩

/-- One text behind another gives its tokens behind those of the other. -/
theorem Gives.append (ha : Gives a (b ++ rest) P) (hb : Gives b rest Q) :
    Gives (a ++ b) rest fun ls => ∃ first second, P first ∧ Q second ∧ ls = first ++ second := by
  intro place
  obtain ⟨first, hfirst, hreada⟩ := ha place
  obtain ⟨second, hsecond, hreadb⟩ := hb (place.after a)
  refine ⟨first ++ second, ⟨first, second, hfirst, hsecond, rfl⟩, ?_⟩
  rw [List.append_assoc, hreada, hreadb, Location.after_append, List.append_assoc]

/-- That tokens are one token, wherever it stands. -/
def Single (token : Token) (ls : List Lexeme) : Prop :=
  ∃ l, ls = [⟨token, l⟩]

theorem gives_piece (piece : Piece) (hne : piece.written ≠ [])
    (hpiece : firstPiece (piece.written ++ rest) = .ok (piece, rest))
    (htoken : piece.token = .ok token) : Gives piece.written rest (Single token) := by
  intro place
  have hall : piece.written ++ rest ≠ [] := List.append_ne_nil_of_left_ne_nil hne rest
  refine ⟨_, ⟨place.upTo (place.after piece.written).offset, rfl⟩, ?_⟩
  rw [lexemes_of_ne_nil place hall, hpiece]
  simp only [htoken]
  rfl

/-- A tag without braces in it gives its token, whatever is behind it. -/
theorem gives_tag (h : Braceless inner) (htoken : Tag.token raw inner = .ok token)
    (rest : List Char) : Gives (Piece.tag raw inner).written rest (Single token) := by
  have hne : (Piece.tag raw inner).written ≠ [] := by
    cases raw <;> simp [Piece.written, opening]
  exact gives_piece _ hne (firstPiece_tag raw h rest) htoken

theorem gives_text (hliteral : Literal content) (h : Breaks rest) :
    Gives content.toList rest (Single (.text content)) := by
  have hne : content.toList ≠ [] :=
    fun hnil => hliteral.nonempty (String.toList_eq_nil_iff.1 hnil)
  have htoken : (Piece.literal content.toList).token = .ok (.text content) := by
    rw [Piece.token, String.ofList_toList]
  exact gives_piece (.literal content.toList) hne (firstPiece_literal hliteral h) htoken

theorem gives_inclusion (h : isPartialName name.toList = true) (rest : List Char) :
    Gives (tagged ('>' :: ' ' :: name.toList)) rest (Single (.inclusion name)) := by
  have hinner : Braceless ('>' :: ' ' :: name.toList) := by
    intro c hc
    rcases List.mem_cons.1 hc with rfl | hc
    · decide
    · rcases List.mem_cons.1 hc with rfl | hc
      · decide
      · exact (plain_of_isPartialName h).braceless c hc
  exact gives_tag hinner (token_inclusion h) rest

theorem gives_openingTag (kind : BlockKind) (h : Plain argument) (rest : List Char) :
    Gives (kind.openingTag argument) rest (Single (.opener kind argument)) := by
  have hword : Braceless ('#' :: kind.keyword.toList ++ [' ']) := by
    cases kind <;> decide
  have hinner : Braceless ('#' :: kind.keyword.toList ++ ' ' :: argument.toList) := by
    intro c hc
    have hsplit : c ∈ ('#' :: kind.keyword.toList ++ [' ']) ++ argument.toList := by
      simpa using hc
    exact (List.mem_append.1 hsplit).elim (hword c) (h.braceless c)
  exact gives_tag hinner (token_opener kind h) rest

theorem gives_closingTag (kind : BlockKind) (rest : List Char) :
    Gives kind.closingTag rest (Single (.closer kind)) := by
  have hinner : Braceless ('/' :: kind.keyword.toList) := by
    cases kind <;> decide
  exact gives_tag hinner (token_closer kind) rest

theorem gives_otherwiseTag (rest : List Char) : Gives otherwiseTag rest (Single .otherwise) :=
  gives_tag (by decide) token_otherwise rest

/-! ## The tree of what is written -/

/-- That tokens derive a tree that differs from the given one in places only. -/
def DerivesLike (ns : List Node) (ls : List Lexeme) : Prop :=
  ∃ read, Derives ls read ∧ Node.unplacedAll read = Node.unplacedAll ns

/-- A piece whose token makes a node by itself, in front of a tree. -/
theorem gives_leaf {node : Location → Node} (hhead : Gives a (cs ++ rest) (Single token))
    (h : Gives cs rest (DerivesLike ns))
    (hderives : ∀ l ls read, Derives ls read → Derives (⟨token, l⟩ :: ls) (node l :: read))
    (hsame : ∀ l l', (node l).unplaced = (node l').unplaced) (place : Location) :
    Gives (a ++ cs) rest (DerivesLike (node place :: ns)) := by
  refine (hhead.append h).mono ?_
  rintro ls ⟨-, more, ⟨l, rfl⟩, ⟨read, hread, heq⟩, rfl⟩
  refine ⟨_, hderives l more read hread, ?_⟩
  rw [Node.unplacedAll, Node.unplacedAll, heq, hsame l place]

/-- A block of one branch in front of a tree. -/
theorem gives_block (kind : BlockKind) (hplain : Plain argument) {body : List Node}
    (hbody : Gives a ((kind.closingTag ++ cs) ++ rest) (DerivesLike body))
    (h : Gives cs rest (DerivesLike ns)) (place : Location) :
    Gives (kind.openingTag argument ++ (a ++ (kind.closingTag ++ cs))) rest
      (DerivesLike (kind.node argument body place :: ns)) := by
  have hclosed := (gives_closingTag kind (cs ++ rest)).append h
  have hopened := (gives_openingTag kind hplain _).append (hbody.append hclosed)
  refine hopened.mono ?_
  rintro ls ⟨-, -, ⟨opened, rfl⟩, ⟨inside, -, ⟨inner, hinside, hinner⟩,
    ⟨-, more, ⟨closed, rfl⟩, ⟨read, hread, heq⟩, rfl⟩, rfl⟩, rfl⟩
  refine ⟨_, .block kind argument opened closed hinside hread, ?_⟩
  cases kind <;> simp [BlockKind.node, Node.unplacedAll, Node.unplaced, hinner, heq]

/-- A condition with two branches in front of a tree. -/
theorem gives_branches (hplain : Plain argument) {body alternative : List Node}
    (hbody : Gives a ((otherwiseTag ++ (b ++ (BlockKind.conditional.closingTag ++ cs))) ++ rest)
      (DerivesLike body))
    (halternative : Gives b ((BlockKind.conditional.closingTag ++ cs) ++ rest)
      (DerivesLike alternative))
    (h : Gives cs rest (DerivesLike ns)) (place : Location) :
    Gives (BlockKind.conditional.openingTag argument ++
        (a ++ (otherwiseTag ++ (b ++ (BlockKind.conditional.closingTag ++ cs))))) rest
      (DerivesLike (.conditional argument body alternative place :: ns)) := by
  have hclosed := (gives_closingTag .conditional (cs ++ rest)).append h
  have hsecond := (gives_otherwiseTag _).append (halternative.append hclosed)
  have hopened := (gives_openingTag .conditional hplain _).append (hbody.append hsecond)
  refine hopened.mono ?_
  rintro ls ⟨-, -, ⟨opened, rfl⟩, ⟨inside, -, ⟨inner, hinside, hinner⟩,
    ⟨-, -, ⟨middle, rfl⟩, ⟨behind, -, ⟨other, hbehind, hother⟩,
      ⟨-, more, ⟨closed, rfl⟩, ⟨read, hread, heq⟩, rfl⟩, rfl⟩, rfl⟩, rfl⟩, rfl⟩
  refine ⟨_, .branches argument opened middle closed hinside hbehind hread, ?_⟩
  simp [Node.unplacedAll, Node.unplaced, hinner, hother, heq]

/-- A node that is no text is written as a tag first. -/
theorem exists_written_eq {node : Node} (h : node.isText = false) :
    ∃ more, node.written = opening false ++ more := by
  cases node with
  | text content place => cases h
  | placeholder name raw place => cases raw <;> exact ⟨_, rfl⟩
  | inclusion name place => exact ⟨_, rfl⟩
  | conditional condition body alternative place => exact ⟨_, rfl⟩
  | negated condition body place => exact ⟨_, rfl⟩
  | loop collection body place => exact ⟨_, rfl⟩

/-- Literal text ends in front of nodes that no text leads. -/
theorem breaks_writtenAll (h : ∀ node ∈ ns.head?, node.isText = false) (hrest : Breaks rest) :
    Breaks (Node.writtenAll ns ++ rest) := by
  cases ns with
  | nil => exact hrest
  | cons node ns =>
    obtain ⟨more, hmore⟩ := exists_written_eq (h node rfl)
    refine .inr ⟨more ++ (Node.writtenAll ns ++ rest), ?_⟩
    rw [Node.writtenAll, hmore, List.append_assoc, List.append_assoc]

/-- **What is written of a tree is read as its tokens**, where a tag or nothing is
behind it. -/
theorem gives_writtenAll (h : WellFormed ns) (hrest : Breaks rest) :
    Gives (Node.writtenAll ns) rest (DerivesLike ns) := by
  -- the branches of a block have a tag behind them, so every level meets `Breaks`
  induction h generalizing rest with
  | nil => exact gives_nil rest ⟨[], .nil, rfl⟩
  | text literal apart more ih =>
    exact gives_leaf (gives_text literal (breaks_writtenAll apart hrest)) (ih hrest)
      (fun _ _ _ => .text) (fun _ _ => rfl) _
  | placeholder plain unsigned more ih =>
    exact gives_leaf (gives_tag plain.braceless (token_placeholder plain unsigned) _) (ih hrest)
      (fun _ _ _ => .placeholder) (fun _ _ => rfl) _
  | inclusion named more ih =>
    exact gives_leaf (gives_inclusion named _) (ih hrest)
      (fun _ _ _ => .inclusion) (fun _ _ => rfl) _
  | @conditional condition body alternative nodes place plain within otherwise more ihbody ihother ih =>
    cases alternative with
    | nil =>
      have hblock := gives_block .conditional plain (ihbody (.inr ⟨_, rfl⟩)) (ih hrest) place
      simpa [Node.writtenAll, Node.written, BlockKind.node] using hblock
    | cons first others =>
      have hblock := gives_branches plain (ihbody (.inr ⟨_, rfl⟩)) (ihother (.inr ⟨_, rfl⟩))
        (ih hrest) place
      simpa [Node.writtenAll, Node.written] using hblock
  | @negated condition body nodes place plain within more ihbody ih =>
    have hblock := gives_block .negated plain (ihbody (.inr ⟨_, rfl⟩)) (ih hrest) place
    simpa [Node.writtenAll, Node.written, BlockKind.node] using hblock
  | @loop collection body nodes place plain within more ihbody ih =>
    have hblock := gives_block .loop plain (ihbody (.inr ⟨_, rfl⟩)) (ih hrest) place
    simpa [Node.writtenAll, Node.written, BlockKind.node] using hblock

/-- What is written of a tree is read as the tree, wherever it stands. -/
theorem parseAt_writtenAll (h : WellFormed ns) (place : Location) :
    ∃ read, parseAt (String.ofList (Node.writtenAll ns)) place = .ok read ∧
      Node.unplacedAll read = Node.unplacedAll ns := by
  obtain ⟨ls, ⟨read, hderives, hsame⟩, hread⟩ :=
    gives_writtenAll h (.inl rfl) (place.upTo place.offset)
  have hlexing : tokenize (String.ofList (Node.writtenAll ns)) place = ⟨ls, none⟩ := by
    rw [tokenize, String.toList_ofList, ← List.append_nil (Node.writtenAll ns), hread]
    simp [lexemes]
  refine ⟨read, ?_, hsame⟩
  rw [parseAt, hlexing]
  exact treeOf_eq_ok_iff.2 ⟨rfl, hderives⟩

/-- A text without tags is read as one text. -/
theorem parse_literal (h : Literal content) : ∃ place, parse content = .ok [.text content place] := by
  obtain ⟨ls, ⟨place, rfl⟩, hread⟩ :=
    gives_text h (.inl rfl) (Location.start.upTo Location.start.offset)
  have hlexing : tokenize content .start = ⟨[⟨.text content, place⟩], none⟩ := by
    rw [tokenize, ← List.append_nil content.toList, hread]
    simp [lexemes]
  have htree : parseAt content .start = .ok [.text content place] := by
    rw [parseAt, hlexing]
    exact treeOf_eq_ok_iff.2 ⟨rfl, .text .nil⟩
  exact ⟨place, Except.mapError_eq_ok_iff.2 htree⟩

/-- **Reading undoes writing.** A tree whose names can stand in tags and whose texts
can stand outside of them is read back from what is written of it, up to the
places of its nodes. -/
theorem parse_writtenAll (h : WellFormed ns) :
    ∃ read, parse (String.ofList (Node.writtenAll ns)) = .ok read ∧
      Node.unplacedAll read = Node.unplacedAll ns := by
  obtain ⟨ls, ⟨read, hderives, hsame⟩, hread⟩ :=
    gives_writtenAll h (.inl rfl) (Location.start.upTo Location.start.offset)
  have hlexing : tokenize (String.ofList (Node.writtenAll ns)) .start = ⟨ls, none⟩ := by
    rw [tokenize, String.toList_ofList, ← List.append_nil (Node.writtenAll ns), hread]
    simp [lexemes]
  have htree : parseAt (String.ofList (Node.writtenAll ns)) .start = .ok read := by
    rw [parseAt, hlexing]
    exact treeOf_eq_ok_iff.2 ⟨rfl, hderives⟩
  exact ⟨read, Except.mapError_eq_ok_iff.2 htree, hsame⟩

/-- A raw value, a condition whose branches begin and end in text, and an empty
block. -/
def menu : List Node :=
  let l := Location.start
  [.placeholder "else" true l, .text "\x7d " l,
    .conditional "user . name" [.text "\x7b " l, .inclusion "badge" l]
      [.loop "items" [.placeholder "this" false l] l, .text " \x7d" l] l,
    .negated "#user" [] l]

example : Node.writtenAll menu =
    ("\x7b\x7b\x7belse\x7d\x7d\x7d\x7d \x7b\x7b#if user . name\x7d\x7d\x7b " ++
      "\x7b\x7b> badge\x7d\x7d\x7b\x7belse\x7d\x7d\x7b\x7b#each items\x7d\x7d" ++
      "\x7b\x7bthis\x7d\x7d\x7b\x7b/each\x7d\x7d \x7d\x7b\x7b/if\x7d\x7d" ++
      "\x7b\x7b#unless #user\x7d\x7d\x7b\x7b/unless\x7d\x7d").toList := by
  decide +kernel

theorem wellFormed_menu : WellFormed menu := by
  have hraw : Plain "else" := ⟨by decide, by decide, by decide⟩
  have hcondition : Plain "user . name" := ⟨by decide, by decide, by decide⟩
  have hitems : Plain "items" := ⟨by decide, by decide, by decide⟩
  have hthis : Plain "this" := ⟨by decide, by decide, by decide⟩
  have hsigned : Plain "#user" := ⟨by decide, by decide, by decide⟩
  have hbody : WellFormed [.text "\x7b " .start, .inclusion "badge" .start] :=
    .text ⟨by decide, by decide, by decide⟩ (by decide) (.inclusion (by decide) .nil)
  have hloop : WellFormed [.placeholder "this" false .start] :=
    .placeholder hthis (fun _ => ⟨by decide, by decide⟩) .nil
  have hother : WellFormed
      [.loop "items" [.placeholder "this" false .start] .start, .text " \x7d" .start] :=
    .loop hitems hloop (.text ⟨by decide, by decide, by decide⟩ (by decide) .nil)
  exact .placeholder hraw (fun h => by cases h)
    (.text ⟨by decide, by decide, by decide⟩ (by decide)
      (.conditional hcondition hbody hother (.negated hsigned .nil .nil)))

/-- Braces beside tags, signs behind a keyword, and a raw value with a reserved
name. -/
theorem parse_writtenAll_menu :
    WellFormed menu ∧ ∃ read, parse (String.ofList (Node.writtenAll menu)) = .ok read ∧
      Node.unplacedAll read = Node.unplacedAll menu :=
  ⟨wellFormed_menu, parse_writtenAll wellFormed_menu⟩

end Markup

end Trellis
