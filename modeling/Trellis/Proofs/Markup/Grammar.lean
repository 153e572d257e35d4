import Trellis.Markup.Parser
import Trellis.Proofs.Except
/-!
# Markup — the grammar of trees

Which sequences of tokens make a tree: literal text, values and partials in any
order, and blocks from an opener to the closer of its kind, where an `if` may
have a second branch behind `else`. Reading tokens against a stack of open
blocks accepts exactly these and builds their tree (`run_eq_ok_iff`). The stack
can always be closed again, so a run over some tokens succeeds if and only if
they start a sequence that makes a tree (`viable_iff`), and the token at which
it fails is the first that no continuation makes good (`parseAt_eq_iff`).
-/

namespace Trellis

namespace Markup

variable {ls more : List Lexeme} {ns : List Node} {d d' : Draft} {x : Lexeme} {e : SourceError}

/-! ## The grammar -/

/-- The node of a block without a second branch. -/
def BlockKind.node (kind : BlockKind) (argument : String) (body : List Node)
    (location : Location) : Node :=
  match kind with
  | .conditional => .conditional argument body [] location
  | .negated => .negated argument body location
  | .loop => .loop argument body location

/-- **The grammar**: the sequences of tokens that make a tree, each with the
tree. A block takes the range from its opener to the end of its closer. -/
inductive Derives : List Lexeme → List Node → Prop where
  | nil : Derives [] []
  | text {content : String} {place : Location} {ls : List Lexeme} {ns : List Node}
      (rest : Derives ls ns) :
      Derives (⟨.text content, place⟩ :: ls) (.text content place :: ns)
  | placeholder {name : String} {raw : Bool} {place : Location} {ls : List Lexeme} {ns : List Node}
      (rest : Derives ls ns) :
      Derives (⟨.placeholder name raw, place⟩ :: ls) (.placeholder name raw place :: ns)
  | inclusion {name : String} {place : Location} {ls : List Lexeme} {ns : List Node}
      (rest : Derives ls ns) :
      Derives (⟨.inclusion name, place⟩ :: ls) (.inclusion name place :: ns)
  | block (kind : BlockKind) (argument : String) (opened closed : Location)
      {body ls : List Lexeme} {inner ns : List Node}
      (within : Derives body inner) (rest : Derives ls ns) :
      Derives (⟨.opener kind argument, opened⟩ :: (body ++ ⟨.closer kind, closed⟩ :: ls))
        (kind.node argument inner (opened.upTo closed.endOffset) :: ns)
  | branches (argument : String) (opened middle closed : Location)
      {body second ls : List Lexeme} {inner alternative ns : List Node}
      (within : Derives body inner) (otherwise : Derives second alternative)
      (rest : Derives ls ns) :
      Derives
        (⟨.opener .conditional argument, opened⟩ ::
          (body ++ ⟨.otherwise, middle⟩ :: (second ++ ⟨.closer .conditional, closed⟩ :: ls)))
        (.conditional argument inner alternative (opened.upTo closed.endOffset) :: ns)

/-- One tree behind another. -/
theorem Derives.append {ms : List Lexeme} {os : List Node} (h : Derives ls ns)
    (h' : Derives ms os) : Derives (ls ++ ms) (ns ++ os) := by
  induction h with
  | nil => exact h'
  | text _ ih => exact .text ih
  | placeholder _ ih => exact .placeholder ih
  | inclusion _ ih => exact .inclusion ih
  | block kind argument opened closed within _ _ ih =>
    simpa using Derives.block kind argument opened closed within ih
  | branches argument opened middle closed within otherwise _ _ _ ih =>
    simpa using Derives.branches argument opened middle closed within otherwise ih

/-! ## What the stack stands for -/

/-- What a draft has read: on its innermost level a tree, and around each level
the tokens of an open block with what stands before it. -/
inductive Reads : List Lexeme → Draft → Prop where
  | level {ls : List Lexeme} {nodes : List Node} (tree : Derives ls nodes.reverse) :
      Reads ls ⟨nodes, []⟩
  | block (kind : BlockKind) (argument : String) (opened : Location)
      {outer ls : List Lexeme} {before nodes : List Node} {frames : List Frame}
      (around : Reads outer ⟨before, frames⟩) (tree : Derives ls nodes.reverse) :
      Reads (outer ++ ⟨.opener kind argument, opened⟩ :: ls)
        ⟨nodes, ⟨kind, argument, opened, before, none⟩ :: frames⟩
  | branch (argument : String) (opened middle : Location)
      {outer body ls : List Lexeme} {before inner nodes : List Node} {frames : List Frame}
      (around : Reads outer ⟨before, frames⟩) (within : Derives body inner)
      (tree : Derives ls nodes.reverse) :
      Reads
        (outer ++ ⟨.opener .conditional argument, opened⟩ :: (body ++ ⟨.otherwise, middle⟩ :: ls))
        ⟨nodes, ⟨.conditional, argument, opened, before, some inner⟩ :: frames⟩

/-- A tree more on the innermost level. -/
theorem Reads.append (h : Reads ls d) (h' : Derives more ns) :
    Reads (ls ++ more) ⟨ns.reverse ++ d.nodes, d.frames⟩ := by
  have htree {ls : List Lexeme} {nodes : List Node} (tree : Derives ls nodes.reverse) :
      Derives (ls ++ more) (ns.reverse ++ nodes).reverse := by
    simpa using tree.append h'
  cases h with
  | level tree => exact .level (htree tree)
  | block kind argument opened around tree =>
    simpa using Reads.block kind argument opened around (htree tree)
  | branch argument opened middle around within tree =>
    simpa using Reads.branch argument opened middle around within (htree tree)

/-- **What one more token makes of it.** -/
theorem Reads.step (h : Reads ls d) (hstep : d.step x = .ok d') : Reads (ls ++ [x]) d' := by
  obtain ⟨token, place⟩ := x
  cases token with
  | text content =>
    obtain rfl := Except.ok.inj hstep
    exact h.append (.text .nil)
  | placeholder name raw =>
    obtain rfl := Except.ok.inj hstep
    exact h.append (.placeholder .nil)
  | inclusion name =>
    obtain rfl := Except.ok.inj hstep
    exact h.append (.inclusion .nil)
  | opener kind argument =>
    obtain rfl := Except.ok.inj hstep
    exact .block kind argument place h .nil
  | otherwise =>
    cases h with
    | level tree => cases hstep
    | block kind argument opened around tree =>
      cases kind with
      | conditional =>
        obtain rfl := Except.ok.inj hstep
        simpa using Reads.branch argument opened place around tree .nil
      | negated => cases hstep
      | loop => cases hstep
    | branch argument opened middle around within tree => cases hstep
  | closer kind =>
    cases h with
    | level tree => cases hstep
    | block kind' argument opened around tree =>
      simp only [Draft.step] at hstep
      split at hstep
      · next hkind =>
        obtain rfl := Except.ok.inj hstep
        subst hkind
        have hblock := Derives.block kind' argument opened place tree .nil
        cases kind' <;> simpa [Frame.close, BlockKind.node] using around.append hblock
      · cases hstep
    | branch argument opened middle around within tree =>
      simp only [Draft.step] at hstep
      split at hstep
      · next hkind =>
        obtain rfl := Except.ok.inj hstep
        subst hkind
        have hblock := Derives.branches argument opened middle place within tree .nil
        simpa [Frame.close] using around.append hblock
      · cases hstep

/-- A run over tokens keeps what the draft stands for. -/
theorem Reads.run (h : Reads ls d) (hrun : more.foldlM Draft.step d = .ok d') :
    Reads (ls ++ more) d' := by
  induction more generalizing ls d with
  | nil =>
    obtain rfl := Except.ok.inj hrun
    simpa using h
  | cons x more ih =>
    rw [List.foldlM_cons] at hrun
    obtain ⟨between, hstep, hrest⟩ := Except.bind_eq_ok_iff.1 hrun
    simpa using ih (h.step hstep) hrest

theorem reads_of_run (hrun : ls.foldlM Draft.step .empty = .ok d) : Reads ls d :=
  (Reads.level .nil : Reads [] .empty).run hrun

/-- A draft without open blocks has read the tree that it is finished with. -/
theorem Reads.derives (h : Reads ls d) (hfinish : d.finish = .ok ns) : Derives ls ns := by
  cases h with
  | level tree =>
    obtain rfl := Except.ok.inj hfinish
    exact tree
  | block kind argument opened around tree => cases hfinish
  | branch argument opened middle around within tree => cases hfinish

/-! ## What the stack machine does -/

/-- A closer of the kind of the innermost open block ends it. -/
theorem Draft.step_closer (nodes : List Node) (frame : Frame) (frames : List Frame)
    (closed : Location) :
    (⟨nodes, frame :: frames⟩ : Draft).step ⟨.closer frame.kind, closed⟩ =
      .ok ⟨frame.close nodes.reverse closed.endOffset :: frame.before, frames⟩ :=
  if_pos rfl

/-- **Tokens that make a tree put it on the innermost level**, whatever blocks are
open around it. -/
theorem Derives.run (h : Derives ls ns) (d : Draft) :
    ls.foldlM Draft.step d = .ok ⟨ns.reverse ++ d.nodes, d.frames⟩ := by
  induction h generalizing d with
  | nil => rfl
  | text _ ih | placeholder _ ih | inclusion _ ih =>
    rw [Except.foldlM_cons_of_ok rfl, ih]
    simp [Draft.add]
  | @block kind argument opened closed _ _ inner _ _ _ ihbody ih =>
    have hclose := Draft.step_closer inner.reverse ⟨kind, argument, opened, d.nodes, none⟩ d.frames
      closed
    rw [Except.foldlM_cons_of_ok rfl, Except.foldlM_append_of_ok (ihbody _), List.append_nil,
      Except.foldlM_cons_of_ok hclose, ih]
    cases kind <;> simp [Frame.close, BlockKind.node]
  | @branches argument opened middle closed _ _ _ inner alternative _ _ _ _ ihbody ihsecond ih =>
    have hclose := Draft.step_closer alternative.reverse
      ⟨.conditional, argument, opened, d.nodes, some inner.reverse.reverse⟩ d.frames closed
    rw [Except.foldlM_cons_of_ok rfl, Except.foldlM_append_of_ok (ihbody _), List.append_nil,
      Except.foldlM_cons_of_ok rfl, Except.foldlM_append_of_ok (ihsecond _), List.append_nil,
      Except.foldlM_cons_of_ok hclose, ih]
    simp [Frame.close]

/-- **The accepted sequences are those of the grammar.** -/
theorem run_eq_ok_iff :
    (∃ d, ls.foldlM Draft.step .empty = .ok d ∧ d.finish = .ok ns) ↔ Derives ls ns := by
  constructor
  · rintro ⟨d, hrun, hfinish⟩
    exact (reads_of_run hrun).derives hfinish
  · intro h
    exact ⟨_, h.run .empty, by simp [Draft.finish, Draft.empty]⟩

/-! ## What can be made good -/

/-- That some continuation makes a tree of the tokens. -/
def Viable (ls : List Lexeme) : Prop :=
  ∃ more ns, Derives (ls ++ more) ns

/-- Open blocks can be closed. -/
theorem exists_closed (d : Draft) :
    ∃ (closers : List Lexeme) (nodes : List Node),
      closers.foldlM Draft.step d = .ok ⟨nodes, []⟩ := by
  obtain ⟨nodes, frames⟩ := d
  induction frames generalizing nodes with
  | nil => exact ⟨[], nodes, rfl⟩
  | cons frame frames ih =>
    obtain ⟨closers, last, hclosers⟩ := ih (frame.close nodes.reverse 0 :: frame.before)
    refine ⟨⟨.closer frame.kind, ⟨0, 0, 0, 0⟩⟩ :: closers, last, ?_⟩
    rw [Except.foldlM_cons_of_ok (Draft.step_closer nodes frame frames _)]
    exact hclosers

/-- **Tokens can be made good if and only if the run over them succeeds.** -/
theorem viable_iff : Viable ls ↔ ∃ d, ls.foldlM Draft.step .empty = .ok d := by
  constructor
  · rintro ⟨more, ns, h⟩
    obtain ⟨d, hrun, -⟩ := Except.foldlM_append_eq_ok_iff.1 (h.run .empty)
    exact ⟨d, hrun⟩
  · rintro ⟨d, hrun⟩
    obtain ⟨closers, nodes, hclosers⟩ := exists_closed d
    have hall : (ls ++ closers).foldlM Draft.step .empty = .ok ⟨nodes, []⟩ :=
      Except.foldlM_append_eq_ok_iff.2 ⟨d, hrun, hclosers⟩
    exact ⟨closers, nodes.reverse, (reads_of_run hall).derives rfl⟩

/-! ## What is blamed -/

/-- The fault of a token that stands where nothing can go on with it. -/
def Token.misplaced? : Token → Option SourceFault
  | .otherwise => some .unexpectedElse
  | .closer kind => some (.unexpectedCloser kind.keyword)
  | _ => none

/-- That the tokens behind an opener leave its block open and no other: they make
a tree, or one on either side of `else`. -/
inductive Inside : BlockKind → List Lexeme → Prop where
  | body {kind : BlockKind} {body : List Lexeme} {inner : List Node} (within : Derives body inner) :
      Inside kind body
  | branches {middle : Location} {body second : List Lexeme} {inner alternative : List Node}
      (within : Derives body inner) (otherwise : Derives second alternative) :
      Inside .conditional (body ++ ⟨.otherwise, middle⟩ :: second)

/-- **What is blamed for tokens that make no tree**: the first token that no
continuation makes good, or else the fault that ended the tokens, or else the
innermost open block. -/
inductive Blames : Lexing → SourceError → Prop where
  | token {before after : List Lexeme} {x : Lexeme} {stopped : Option SourceError}
      {fault : SourceFault} (good : Viable before) (bad : ¬ Viable (before ++ [x]))
      (misplaced : x.token.misplaced? = some fault) :
      Blames ⟨before ++ x :: after, stopped⟩ { fault, location := x.location }
  | stop {ls : List Lexeme} {e : SourceError} (good : Viable ls) : Blames ⟨ls, some e⟩ e
  | block {before behind : List Lexeme} {kind : BlockKind} {argument : String} {opened : Location}
      (good : Viable (before ++ ⟨.opener kind argument, opened⟩ :: behind))
      (inside : Inside kind behind) :
      Blames ⟨before ++ ⟨.opener kind argument, opened⟩ :: behind, none⟩
        { fault := .unclosedBlock kind.keyword opened, location := opened }

/-- A step fails only at a token that stands in the wrong place, and blames it. -/
theorem misplaced_of_step (h : d.step x = .error e) :
    ∃ fault, x.token.misplaced? = some fault ∧ e = { fault, location := x.location } := by
  obtain ⟨token, place⟩ := x
  cases token with
  | text content => cases h
  | placeholder name raw => cases h
  | inclusion name => cases h
  | opener kind argument => cases h
  | otherwise =>
    simp only [Draft.step] at h
    split at h
    · cases h
    · obtain rfl := Except.error.inj h
      exact ⟨_, rfl, rfl⟩
  | closer kind =>
    simp only [Draft.step] at h
    split at h
    · split at h
      · cases h
      · obtain rfl := Except.error.inj h
        exact ⟨_, rfl, rfl⟩
    · obtain rfl := Except.error.inj h
      exact ⟨_, rfl, rfl⟩

/-- **A run fails at the first token that no continuation makes good**, and blames
it. -/
theorem run_eq_error_iff :
    ls.foldlM Draft.step .empty = .error e ↔
      ∃ before x after fault, ls = before ++ x :: after ∧ Viable before ∧
        ¬ Viable (before ++ [x]) ∧ x.token.misplaced? = some fault ∧
        e = { fault, location := x.location } := by
  rw [Except.foldlM_eq_error_iff]
  constructor
  · rintro ⟨before, x, after, d, rfl, hrun, hstep⟩
    obtain ⟨fault, hfault, rfl⟩ := misplaced_of_step hstep
    refine ⟨before, x, after, fault, rfl, viable_iff.2 ⟨d, hrun⟩, fun hviable => ?_, hfault, rfl⟩
    obtain ⟨last, hlast⟩ := viable_iff.1 hviable
    obtain ⟨d', hrun', hstep'⟩ := Except.foldlM_append_eq_ok_iff.1 hlast
    rw [hrun] at hrun'
    obtain rfl := Except.ok.inj hrun'
    rw [List.foldlM_cons, hstep] at hstep'
    cases hstep'
  · rintro ⟨before, x, after, fault, rfl, hgood, hbad, hfault, rfl⟩
    obtain ⟨d, hrun⟩ := viable_iff.1 hgood
    refine ⟨before, x, after, d, rfl, hrun, ?_⟩
    cases hstep : d.step x with
    | ok d' =>
      have hmore : (before ++ [x]).foldlM Draft.step .empty = .ok d' := by
        rw [Except.foldlM_append_of_ok hrun, Except.foldlM_cons_of_ok hstep]
        rfl
      exact absurd (viable_iff.2 ⟨d', hmore⟩) hbad
    | error e =>
      obtain ⟨other, hother, rfl⟩ := misplaced_of_step hstep
      rw [hfault] at hother
      obtain rfl := Option.some.inj hother
      rfl

/-- The tokens behind an opener that leave its block open put a frame of it on
the stack. -/
theorem Inside.run {kind : BlockKind} (h : Inside kind more) (argument : String)
    (opened : Location) (d : Draft) :
    ∃ nodes body, (⟨.opener kind argument, opened⟩ :: more).foldlM Draft.step d =
      .ok ⟨nodes, ⟨kind, argument, opened, d.nodes, body⟩ :: d.frames⟩ := by
  rw [Except.foldlM_cons_of_ok rfl]
  cases h with
  | body within => exact ⟨_, none, within.run _⟩
  | branches within otherwise =>
    rw [Except.foldlM_append_of_ok (within.run _), Except.foldlM_cons_of_ok rfl]
    exact ⟨_, some _, otherwise.run _⟩

/-- **A run that ends inside of blocks blames the innermost one.** -/
theorem finish_eq_error_iff :
    (∃ d, ls.foldlM Draft.step .empty = .ok d ∧ d.finish = .error e) ↔
      ∃ before kind argument opened behind,
        ls = before ++ ⟨.opener kind argument, opened⟩ :: behind ∧ Viable ls ∧ Inside kind behind ∧
        e = { fault := .unclosedBlock kind.keyword opened, location := opened } := by
  constructor
  · rintro ⟨d, hrun, hfinish⟩
    have hviable : Viable ls := viable_iff.2 ⟨d, hrun⟩
    cases reads_of_run hrun with
    | level tree => cases hfinish
    | block kind argument opened around tree =>
      obtain rfl := Except.error.inj hfinish
      exact ⟨_, _, _, _, _, rfl, hviable, .body tree, rfl⟩
    | branch argument opened middle around within tree =>
      obtain rfl := Except.error.inj hfinish
      exact ⟨_, _, _, _, _, rfl, hviable, .branches within tree, rfl⟩
  · rintro ⟨before, kind, argument, opened, behind, rfl, hviable, hinside, rfl⟩
    obtain ⟨last, hlast⟩ := viable_iff.1 hviable
    obtain ⟨d, hrun, -⟩ := Except.foldlM_append_eq_ok_iff.1 hlast
    obtain ⟨nodes, body, hbehind⟩ := hinside.run argument opened d
    exact ⟨_, Except.foldlM_append_eq_ok_iff.2 ⟨d, hrun, hbehind⟩, rfl⟩

/-! ## The tree of a text -/

variable {lexing : Lexing}

/-- **Tokens have a tree if they are all there and derive it.** -/
theorem treeOf_eq_ok_iff :
    treeOf lexing = .ok ns ↔ lexing.stopped = none ∧ Derives lexing.lexemes ns := by
  rw [← run_eq_ok_iff]
  unfold treeOf
  cases hrun : lexing.lexemes.foldlM Draft.step .empty with
  | error e =>
    constructor
    · intro h
      cases h
    · rintro ⟨-, d, h, -⟩
      cases h
  | ok d =>
    cases lexing.stopped with
    | none => simp
    | some e => simp

/-- **Tokens without a tree blame one place.** -/
theorem treeOf_eq_error_iff : treeOf lexing = .error e ↔ Blames lexing e := by
  obtain ⟨ls, stopped⟩ := lexing
  unfold treeOf
  constructor
  · intro h
    dsimp only at h
    cases hrun : ls.foldlM Draft.step .empty with
    | error e' =>
      rw [hrun] at h
      obtain rfl := Except.error.inj h
      obtain ⟨before, x, after, fault, rfl, hgood, hbad, hfault, rfl⟩ := run_eq_error_iff.1 hrun
      exact .token hgood hbad hfault
    | ok d =>
      rw [hrun] at h
      cases stopped with
      | some e' =>
        obtain rfl := Except.error.inj h
        exact .stop (viable_iff.2 ⟨d, hrun⟩)
      | none =>
        obtain ⟨before, kind, argument, opened, behind, rfl, hviable, hinside, rfl⟩ :=
          finish_eq_error_iff.1 ⟨d, hrun, h⟩
        exact .block hviable hinside
  · intro h
    cases h with
    | token hgood hbad hfault =>
      rw [run_eq_error_iff.2 ⟨_, _, _, _, rfl, hgood, hbad, hfault, rfl⟩]
    | stop hgood =>
      obtain ⟨d, hrun⟩ := viable_iff.1 hgood
      rw [hrun]
    | block hgood hinside =>
      obtain ⟨d, hrun, hfinish⟩ :=
        finish_eq_error_iff.2 ⟨_, _, _, _, _, rfl, hgood, hinside, rfl⟩
      rw [hrun]
      exact hfinish

/-- **Exactly the sequences of the grammar have a tree, and the right place is
blamed for any other.** A text has a tree if and only if all of it falls into
tokens and these derive the tree. Otherwise the error is the one at the first
token that no continuation makes good, or else the fault that ended the tokens,
or else the one at the innermost open block. -/
theorem parseAt_eq_iff (text : String) (origin : Location) :
    (∀ ns, parseAt text origin = .ok ns ↔
      (tokenize text origin).stopped = none ∧ Derives (tokenize text origin).lexemes ns) ∧
      ∀ e, parseAt text origin = .error e ↔ Blames (tokenize text origin) e :=
  ⟨fun _ => treeOf_eq_ok_iff, fun _ => treeOf_eq_error_iff⟩

end Markup

end Trellis
