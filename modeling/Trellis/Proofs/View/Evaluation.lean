import Trellis.Proofs.View.Templates
import Trellis.View
/-!
# View — values that stay in their strings

A data section is a template of data. Shown in a scope it is a text of the value
that the template has, with the values of the scope in its places, whatever
characters they are made of (`evaluate_exact`). Braces of objects and braces of
places never meet, so the lexer of markup finds the places and nothing else; and
what is shown in a place spells its characters, so the reader of data finds the end
of each string where the template has it.
-/

namespace Trellis

namespace Template

open Markup (Node WellFormed Plain Unsigned Literal)

variable {t u : List Glyph} {ts : List (List Glyph)} {v : Filling → Json.Value} {depth : Nat}
  {cs : List Char} {c : Char} {ns : List Node}

/-! ## Braces -/

/-- **That no braces of a template meet**, except those of its places: behind an
opening brace there is a character that is none. -/
inductive Settled : List Glyph → Prop where
  | nil : Settled []
  | value {path : String} {t : List Glyph} (plain : Plain path) (unsigned : Unsigned path)
      (more : Settled t) : Settled (.value path :: t)
  | char {c : Char} {t : List Glyph} (other : c ≠ '{') (more : Settled t) : Settled (.char c :: t)
  | brace {c : Char} {t : List Glyph} (other : c ≠ '{') (more : Settled (.char c :: t)) :
      Settled (.char '{' :: .char c :: t)

theorem Settled.append (ht : Settled t) (hu : Settled u) : Settled (t ++ u) := by
  induction ht with
  | nil => exact hu
  | value plain unsigned more ih => exact .value plain unsigned ih
  | char other more ih => exact .char other ih
  | brace other more ih => exact .brace other ih

theorem settled_literal (h : '{' ∉ cs) : Settled (literal cs) := by
  induction cs with
  | nil => exact .nil
  | cons c cs ih =>
    exact .char (Ne.symm (List.ne_of_not_mem_cons h)) (ih (List.not_mem_of_not_mem_cons h))

/-- Text in which no two braces open, and that does not end in one. -/
theorem settled_literal_of_unopened (htagless : ¬ Markup.opening false <:+: cs)
    (hclosed : cs.getLast? ≠ some '{') : Settled (literal cs) := by
  induction cs with
  | nil => exact .nil
  | cons c cs ih =>
    have hinfix : ¬ Markup.opening false <:+: cs := fun h =>
      htagless (h.trans (List.suffix_cons c cs).isInfix)
    cases cs with
    | nil => exact .char (fun hc => hclosed (congrArg some hc)) .nil
    | cons d cs =>
      have hmore := ih hinfix (by simpa using hclosed)
      by_cases hc : c = '{'
      · subst hc
        refine .brace (fun hd => htagless ?_) hmore
        subst hd
        exact ⟨[], cs, rfl⟩
      · exact .char hc hmore

theorem settled_separated (h : ∀ t ∈ ts, Settled t) : Settled (separated ts) := by
  induction ts with
  | nil => exact .nil
  | cons t ts ih =>
    have hmore := ih fun u hu => h u (List.mem_cons_of_mem t hu)
    have hfirst := h t List.mem_cons_self
    cases ts with
    | nil => rwa [separated_singleton]
    | cons u ts =>
      rw [separated_cons_cons]
      exact hfirst.append (.char (by decide) hmore)

/-- That a template starts with a character that is no opening brace. -/
def Starts (t : List Glyph) : Prop :=
  ∃ c u, t = .char c :: u ∧ c ≠ '{'

theorem Starts.append (h : Starts t) (u : List Glyph) : Starts (t ++ u) := by
  obtain ⟨c, t, rfl, hc⟩ := h
  exact ⟨c, t ++ u, rfl, hc⟩

theorem Starts.separated (h : Starts t) (ts : List (List Glyph)) :
    Starts (separated (t :: ts)) := by
  cases ts with
  | nil => rwa [separated_singleton]
  | cons u ts =>
    rw [separated_cons_cons]
    exact h.append _

theorem starts_literal (hne : cs ≠ []) (h : '{' ∉ cs) : Starts (literal cs) := by
  obtain ⟨c, cs, rfl⟩ := List.exists_cons_of_ne_nil hne
  exact ⟨c, literal cs, rfl, Ne.symm (List.ne_of_not_mem_cons h)⟩

theorem Starts.settled (h : Starts t) (ht : Settled t) : Settled (.char '{' :: t) := by
  obtain ⟨c, u, rfl, hc⟩ := h
  exact .brace hc ht

theorem brace_not_mem_of_spaces (h : Json.Spaces cs) : '{' ∉ cs := by
  intro hmem
  exact absurd (h '{' hmem) (by decide)

theorem brace_not_mem_of_integral (h : Json.Integral cs) : '{' ∉ cs := by
  have hdigits {digits : List Char} (hall : ∀ c ∈ digits, c.isDigit = true) : '{' ∉ digits :=
    fun hmem => absurd (hall '{' hmem) (by decide)
  cases h with
  | unsigned hne hall => exact hdigits hall
  | negative hne hall => exact List.not_mem_cons_of_ne_of_not_mem (by decide) (hdigits hall)

theorem settled_letter {l : Letter} (h : l.Fits) : Settled l.glyphs := by
  cases l with
  | spelled text c => exact settled_literal fun hmem => (h.2 '{' hmem).1 rfl
  | value path => exact .value h.1 h.2 .nil

theorem brace_not_mem_front {f : Field} (hbefore : Json.Spaces f.before)
    (hkey : ∀ l ∈ f.key, (Letter.spelled l.1 l.2).Fits) (hbehind : Json.Spaces f.behind) :
    '{' ∉ f.front := by
  have hspelling : '{' ∉ f.spelling := by
    intro hmem
    obtain ⟨l, hl, hmem⟩ := List.mem_flatMap.1 hmem
    exact ((hkey l hl).2 '{' hmem).1 rfl
  simp [Field.front, hspelling, brace_not_mem_of_spaces hbefore, brace_not_mem_of_spaces hbehind]

/-- **The braces of an object never meet others**: a space, a key or the end of the
object follows. -/
theorem Denotes.settled (h : Denotes depth t v) : Settled t := by
  induction h with
  | null => exact settled_literal (by decide)
  | truth => exact settled_literal (by decide)
  | falsehood => exact settled_literal (by decide)
  | number integral read => exact settled_literal (brace_not_mem_of_integral integral)
  | string fit =>
    rename_i depth letters
    have hletters : Settled (letters.flatMap Letter.glyphs) := by
      clear depth
      induction letters with
      | nil => exact .nil
      | cons l letters ih =>
        rw [List.flatMap_cons]
        exact (settled_letter (fit l List.mem_cons_self)).append
          (ih fun l hl => fit l (List.mem_cons_of_mem _ hl))
    exact .char (by decide) (hletters.append (.char (by decide) .nil))
  | array spaces members ih =>
    have hitems := settled_separated (List.forall_mem_map.2 ih)
    exact .char (by decide) ((settled_literal (brace_not_mem_of_spaces spaces)).append
      (hitems.append (.char (by decide) .nil)))
  | object spaces before keys behind members ih =>
    rename_i depth gap fields
    have hfront {f : Field} (hf : f ∈ fields) : '{' ∉ f.front :=
      brace_not_mem_front (before f hf) (keys f hf) (behind f hf)
    have hfields : Settled (separated (fields.map Field.glyphs)) :=
      settled_separated (List.forall_mem_map.2 fun f hf =>
        (settled_literal (hfront hf)).append (ih f hf))
    have hgap := brace_not_mem_of_spaces spaces
    refine Starts.settled ?_ ((settled_literal hgap).append
      (hfields.append (.char (by decide) .nil)))
    cases gap with
    | cons c gap => exact (starts_literal (List.cons_ne_nil c gap) hgap).append _
    | nil =>
      cases fields with
      | nil => exact ⟨'}', [], rfl, by decide⟩
      | cons f fields =>
        have hfirst : Starts f.glyphs :=
          (starts_literal (by simp [Field.front]) (hfront List.mem_cons_self)).append f.value
        exact (hfirst.separated _).append _
  | padded front back inner ih =>
    exact (settled_literal (brace_not_mem_of_spaces front)).append
      (ih.append (settled_literal (brace_not_mem_of_spaces back)))

/-! ## The tree of a template -/

/-- A character in front of nodes. Literal text takes it in. -/
def leading (c : Char) : List Node → List Node
  | .text content place :: ns => .text (String.ofList (c :: content.toList)) place :: ns
  | ns => .text (String.ofList [c]) .start :: ns

/-- **The tree of a template**: its places, and literal text between them. -/
def nodes : List Glyph → List Node
  | [] => []
  | .char c :: t => leading c (nodes t)
  | .value path :: t => .placeholder path false .start :: nodes t

/-- A character stands at the front of literal text. -/
theorem exists_leading_eq (c : Char) (ns : List Node) :
    ∃ cs place more, leading c ns = .text (String.ofList (c :: cs)) place :: more := by
  unfold leading
  split <;> exact ⟨_, _, _, rfl⟩

theorem writtenAll_leading (c : Char) (ns : List Node) :
    Node.writtenAll (leading c ns) = c :: Node.writtenAll ns := by
  unfold leading
  split <;> simp [Node.writtenAll, Node.written]

/-- The tree of a template is written as the template. -/
theorem writtenAll_nodes (t : List Glyph) : Node.writtenAll (nodes t) = written t := by
  induction t with
  | nil => rfl
  | cons g t ih =>
    cases g with
    | char c => rw [nodes, writtenAll_leading, ih]; rfl
    | value path => rw [nodes, Node.writtenAll, Node.written, ih]; rfl

/-- Literal text may begin with a brace if it goes on with something else. -/
theorem wellFormed_leading (h : WellFormed ns)
    (hbrace : c = '{' → ∃ d cs place more, d ≠ '{' ∧
      ns = .text (String.ofList (d :: cs)) place :: more) :
    WellFormed (leading c ns) := by
  have hsingle (hc : c ≠ '{') : Literal (String.ofList [c]) := by
    refine ⟨by simp, fun hinfix => ?_, by simpa using hc⟩
    have hlength := hinfix.length_le
    simp [Markup.opening] at hlength
  have hother (hns : ∀ node ∈ ns.head?, node.isText = false) : c ≠ '{' := by
    intro hc
    obtain ⟨d, cs, place, more, -, rfl⟩ := hbrace hc
    exact Bool.false_ne_true (hns _ rfl).symm
  unfold leading
  split
  · next content place ns =>
    cases h with
    | text literal apart more =>
      refine .text ⟨by simp, fun hinfix => ?_, ?_⟩ apart more
      · rw [String.toList_ofList] at hinfix
        rcases List.infix_cons_iff.1 hinfix with hprefix | hinfix
        · obtain ⟨rest, hrest⟩ := hprefix
          obtain ⟨hc, hrest⟩ : '{' = c ∧ '{' :: rest = content.toList := List.cons.inj hrest
          obtain ⟨d, cs, place', more', hd, heq⟩ := hbrace hc.symm
          obtain ⟨rfl, -⟩ := Node.text.inj (List.cons.inj heq).1
          rw [String.toList_ofList] at hrest
          exact hd (List.cons.inj hrest).1.symm
        · exact literal.tagless hinfix
      · have hne : content.toList ≠ [] :=
          fun hnil => literal.nonempty (String.toList_eq_nil_iff.1 hnil)
        rw [String.toList_ofList, List.getLast?_cons_of_ne_nil hne]
        exact literal.closed
  · next hnone =>
    have hns : ∀ node ∈ ns.head?, node.isText = false := by
      intro node hnode
      obtain ⟨more, rfl⟩ := List.head?_eq_some_iff.1 hnode
      cases node with
      | text content place => exact absurd rfl (hnone content place more)
      | _ => rfl
    exact .text (hsingle (hother hns)) hns h

/-- **The tree of a settled template can be written and read back.** -/
theorem Settled.wellFormed (h : Settled t) : WellFormed (nodes t) := by
  induction h with
  | nil => exact .nil
  | value plain unsigned more ih => exact .placeholder plain (fun _ => unsigned) ih
  | char other more ih => exact wellFormed_leading ih fun hc => absurd hc other
  | brace other more ih =>
    rename_i c t
    obtain ⟨cs, place, rest, heq⟩ := exists_leading_eq c (nodes t)
    exact wellFormed_leading ih fun _ => ⟨c, cs, place, rest, other, heq⟩

/-! ## Showing a template -/

/-- **What the values of a scope show**, nothing where there is none. -/
def fillingOf (scope : Lookup) : Filling := fun path =>
  ((scope path).map Json.Value.shown).getD []

/-- Whether a node shows the same wherever it stands in a source. -/
def isFlat : Node → Bool
  | .text .. | .placeholder .. => true
  | _ => false

theorem isFlat_of_mem_leading {node : Node} (h : ∀ n ∈ ns, isFlat n = true)
    (hnode : node ∈ leading c ns) : isFlat node = true := by
  unfold leading at hnode
  split at hnode
  · rcases List.mem_cons.1 hnode with rfl | hnode
    · rfl
    · exact h node (List.mem_cons_of_mem _ hnode)
  · rcases List.mem_cons.1 hnode with rfl | hnode
    · rfl
    · exact h node hnode

theorem isFlat_of_mem_nodes {node : Node} (h : node ∈ nodes t) : isFlat node = true := by
  induction t generalizing node with
  | nil => cases h
  | cons g t ih =>
    cases g with
    | char c => exact isFlat_of_mem_leading (fun n hn => ih hn) h
    | value path =>
      rcases List.mem_cons.1 h with rfl | h
      · rfl
      · exact ih h

/-- **Flat nodes show the same** with any places. -/
theorem render_of_unplaced {ms : List Node} {escaping : Render.Escaping}
    {embed : Render.Inclusion} {scope : Lookup} (h : Node.unplacedAll ms = Node.unplacedAll ns)
    (hflat : ∀ n ∈ ns, isFlat n = true) :
    Render.nodes escaping embed ms scope = Render.nodes escaping embed ns scope := by
  induction ns generalizing ms with
  | nil =>
    cases ms with
    | nil => rfl
    | cons m ms => cases h
  | cons n ns ih =>
    cases ms with
    | nil => cases h
    | cons m ms =>
      obtain ⟨hnode, hmore⟩ := List.cons.inj h
      have hsame : Render.node escaping embed m scope = Render.node escaping embed n scope := by
        have hn := hflat n List.mem_cons_self
        cases n with
        | text content place =>
          cases m <;> simp only [Node.unplaced, reduceCtorEq, Node.text.injEq] at hnode
          simp only [Render.node, hnode]
        | placeholder name raw place =>
          cases m <;> simp only [Node.unplaced, reduceCtorEq, Node.placeholder.injEq] at hnode
          simp only [Render.node, hnode]
        | inclusion | conditional | negated | loop => cases hn
      rw [Render.nodes, Render.nodes, hsame, ih hmore fun k hk => hflat k (List.mem_cons_of_mem n hk)]

theorem render_leading {escaping : Render.Escaping} {embed : Render.Inclusion} {scope : Lookup}
    (h : Render.nodes escaping embed ns scope = .ok cs) (c : Char) :
    Render.nodes escaping embed (leading c ns) scope = .ok (c :: cs) := by
  unfold leading
  split
  · next content place more =>
    rw [Render.nodes, Render.node] at h ⊢
    obtain ⟨first, hfirst, h⟩ := Except.bind_eq_ok_iff.1 h
    obtain ⟨behind, hbehind, h⟩ := Except.bind_eq_ok_iff.1 h
    obtain rfl := Except.ok.inj hfirst
    obtain rfl := Except.ok.inj h
    rw [hbehind, String.toList_ofList]
    rfl
  · rw [Render.nodes, Render.node, h, String.toList_ofList]
    rfl

/-- **The tree of a template shows the template** with the values of the scope in
its places. -/
theorem render_nodes (embed : Render.Inclusion) (scope : Lookup) (t : List Glyph) :
    Render.nodes .string embed (nodes t) scope = .ok (shown (fillingOf scope) t) := by
  induction t with
  | nil => rfl
  | cons g t ih =>
    cases g with
    | char c => exact render_leading ih c
    | value path =>
      have hvalue : Render.placeholder .string scope path false =
          Json.escapedText (fillingOf scope path) := by
        unfold Render.placeholder fillingOf
        cases scope path with
        | none => rfl
        | some value => exact Escape.string_eq_escapedText value.shown
      rw [nodes, Render.nodes, Render.node, hvalue, ih]
      rfl

/-- A tree like that of a template shows the template, however deep partials may
lie. -/
theorem render_tree {read : List Node} (h : Node.unplacedAll read = Node.unplacedAll (nodes t))
    (maxDepth : Nat) (partials : Render.Partials) (scope : Lookup) :
    Render.tree { maxDepth, escaping := .string } partials read scope =
      .ok (shown (fillingOf scope) t) := by
  have hshown (embed : Render.Inclusion) :
      Render.nodes .string embed read scope = .ok (shown (fillingOf scope) t) :=
    (render_of_unplaced h fun n hn => isFlat_of_mem_nodes hn).trans (render_nodes embed scope t)
  unfold Render.tree
  cases maxDepth with
  | zero => rw [Render.showWithin, hshown]; rfl
  | succ depth => rw [Render.showWithin, hshown]; rfl

/-! ## Data sections -/

/-- **A value never leaves its string.** A template of a value is read as markup,
shown in any scope, and read as data again, and what comes out is the value of the
template with exactly what the scope's values show in its places. So it is for the
data section of a document. And a text that escaping takes as it is stands so in the
string that it is written as. -/
theorem evaluate_exact (h : Denotes Json.greatestDepth t v) :
    (∀ place, ∃ read, Markup.parseAt (String.ofList (written t)) place = .ok read ∧
      ∀ maxDepth partials scope, ∃ text,
        Render.tree { maxDepth, escaping := .string } partials read scope = .ok text ∧
          Json.decode text = .ok (v (fillingOf scope))) ∧
    (∀ maker layers name member (d : Document), d.data.raw = String.ofList (written t) →
      View.evaluate maker layers name member d = .ok (v (fillingOf (Scope.lookup { layers })))) ∧
    ∀ cs, Escape.string cs = Json.escapedText cs ∧
      (Json.Value.string (String.ofList cs)).written = '"' :: (Escape.string cs ++ ['"']) := by
  have hdecode (scope : Lookup) :
      Json.decode (shown (fillingOf scope) t) = .ok (v (fillingOf scope)) :=
    (h.reads (fillingOf scope)).decodeWithin
  have hparse (place : Location) : ∃ read,
      Markup.parseAt (String.ofList (written t)) place = .ok read ∧
        Node.unplacedAll read = Node.unplacedAll (nodes t) := by
    rw [← writtenAll_nodes]
    exact Markup.parseAt_writtenAll h.settled.wellFormed place
  refine ⟨fun place => ?_, fun maker layers name member d hraw => ?_, fun cs => ?_⟩
  · obtain ⟨read, hread, hsame⟩ := hparse place
    exact ⟨read, hread, fun maxDepth partials scope =>
      ⟨_, render_tree hsame maxDepth partials scope, hdecode scope⟩⟩
  · obtain ⟨read, hread, hsame⟩ := hparse d.data.contentPlace
    unfold View.evaluate
    rw [hraw, hread]
    simp only [Except.mapError, bind, Except.bind, render_tree hsame, hdecode]
  · have hescape := Escape.string_eq_escapedText cs
    refine ⟨hescape, ?_⟩
    rw [Json.Value.written, Json.quoted, String.toList_ofList, hescape]
    rfl

/-- The letters of a string: a quote and the place of a name. -/
def guestLetters : List Letter :=
  [.spelled ['\\', '"'] '"', .value "name"]

/-- A field with that string in a list, behind a number. -/
def guestField : Field where
  before := [' ']
  key := [(['a'], 'a')]
  behind := []
  value := .char '[' :: (literal [] ++ (separated [literal ['-', '1'],
    .char '"' :: (guestLetters.flatMap Letter.glyphs ++ [.char '"'])] ++ [.char ']']))
  means fill := .array [.number (.int (-1)),
    .string (String.ofList (guestLetters.flatMap (Letter.chars fill)))]

/-- An object of that field alone. -/
def guest : List Glyph :=
  .char '{' :: (literal [] ++ (separated [guestField.glyphs] ++ [.char '}']))

example : written guest = "\x7b \"a\":[-1,\"\\\"\x7b\x7bname\x7d\x7d\"]\x7d".toList := by
  decide +kernel

theorem denotes_guest : Denotes Json.greatestDepth guest fun fill =>
    .object [("a", guestField.means fill)] := by
  have hletters : ∀ l ∈ guestLetters, l.Fits := by
    simp only [guestLetters, List.mem_cons, List.not_mem_nil, or_false, forall_eq_or_imp, forall_eq]
    exact ⟨⟨.marked (by decide), by decide⟩, ⟨by decide, by decide, by decide⟩, by decide, by decide⟩
  have hkey : ∀ l ∈ guestField.key, (Letter.spelled l.1 l.2).Fits := by
    intro l hl
    obtain rfl := List.mem_singleton.1 hl
    exact ⟨.self (by decide) (by decide) (by decide), by decide⟩
  have hnumber : Denotes 125 (literal ['-', '1']) fun _ => .number (.int (-1)) :=
    .number (.negative (List.cons_ne_nil '1' []) (List.forall_mem_singleton.2 rfl)) rfl
  have hlist : Denotes 126 guestField.value guestField.means := by
    refine @Denotes.array 125 [] [(_, _), (_, _)] Json.spaces_nil ?_
    exact List.forall_mem_cons.2 ⟨hnumber, List.forall_mem_singleton.2 (.string hletters)⟩
  exact @Denotes.object 126 [] [guestField] Json.spaces_nil
    (List.forall_mem_singleton.2 (List.forall_mem_singleton.2 rfl))
    (List.forall_mem_singleton.2 hkey) (List.forall_mem_singleton.2 Json.spaces_nil)
    (List.forall_mem_singleton.2 hlist)

/-- A scope in which the name would end the string, the list and the object. -/
def intruder : Scope where
  layers := { server := [("name", .string "\"]\x7d\\\n\x7b\x7bname\x7d\x7d")] }

theorem evaluate_exact_intruder :
    Denotes Json.greatestDepth guest (fun fill => .object [("a", guestField.means fill)]) ∧
      ∃ read text, Markup.parseAt (String.ofList (written guest)) .start = .ok read ∧
        Render.tree { escaping := .string } (fun _ => none) read intruder = .ok text ∧
        Json.decode text = .ok (.object [("a", .array [.number (.int (-1)),
          .string "\"\"]\x7d\\\n\x7b\x7bname\x7d\x7d"])]) := by
  obtain ⟨read, hread, hshown⟩ := (evaluate_exact denotes_guest).1 .start
  obtain ⟨text, htext, hdecode⟩ := hshown 64 (fun _ => none) intruder
  have hname : String.ofList (guestLetters.flatMap (Letter.chars (fillingOf intruder))) =
      "\"\"]\x7d\\\n\x7b\x7bname\x7d\x7d" := by
    decide +kernel
  refine ⟨denotes_guest, read, text, hread, htext, ?_⟩
  rw [hdecode, ← hname]
  rfl

end Template

end Trellis
