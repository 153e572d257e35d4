import Trellis.Proofs.Document.Template
import Trellis.Proofs.Graph.Order
import Trellis.Proofs.Json.Order
import Trellis.Proofs.Markup.Places
/-!
# Graph — names stand in sources

A partial's name is what is between the braces of its tag, a layout's name what is between
the quotes of its attribute. So whatever a source refers to is a part of its text
(`infix_of_mem_references`), and a graph has no name but its root's that is not a part of one of its
sources (`root_or_infix_of_mem_order`).
-/

namespace Trellis

/-! ## Partials -/

namespace Markup

variable {text name : String} {place : Location} {cs rest inner : List Char} {raw : Bool}
  {stopped : Option SourceError} {ls : List Lexeme}

theorem infix_trim (cs : List Char) : Text.trim cs <:+: cs := by
  have hend : Text.trim cs <+: Text.trimStart cs :=
    List.reverse_suffix.1 (by
      rw [Text.trim, Text.trimEnd, List.reverse_reverse]
      exact List.dropWhile_suffix _)
  exact hend.isInfix.trans (List.dropWhile_suffix _).isInfix

/-- The name in a partial's tag is a part of what is between its braces. -/
theorem infix_of_token_inclusion (h : Tag.token raw inner = .ok (.inclusion name)) :
    name.toList <:+: inner := by
  unfold Tag.token at h
  cases raw with
  | true =>
    rw [if_pos rfl] at h
    split at h <;> cases h
  | false =>
    refine List.IsInfix.trans ?_ (infix_trim inner)
    rw [if_neg (by decide)] at h
    generalize Text.trim inner = cs at h ⊢
    unfold Tag.classified at h
    split at h
    · cases h
    · next c rest =>
      split at h
      · -- behind its sign stands the name
        unfold Tag.inclusion at h
        dsimp only at h
        split at h
        · injection h with h
          injection h with h
          rw [← h, String.toList_ofList]
          exact (infix_trim rest).trans (List.suffix_cons c rest).isInfix
        · cases h
      split at h
      · unfold Tag.opener at h
        dsimp only at h
        split at h
        · cases h
        · split at h <;> cases h
      split at h
      · cases h
      split at h
      · unfold Tag.closer at h
        dsimp only at h
        split at h <;> cases h
      · cases h

theorem infix_of_mem_lexemes {x : Lexeme} (h : lexemes place cs = ⟨ls, stopped⟩) (hx : x ∈ ls)
    (hname : x.token = .inclusion name) : name.toList <:+: cs := by
  induction ls generalizing place cs with
  | nil => cases hx
  | cons y ls ih =>
    obtain ⟨-, piece, rest, token, hpiece, htoken, rfl, hmore⟩ := lexemes_eq_cons_iff.1 h
    rw [eq_of_firstPiece hpiece]
    rcases List.mem_cons.1 hx with rfl | hx
    · obtain rfl : token = .inclusion name := hname
      cases piece with
      | literal text => cases htoken
      | tag raw inner =>
        have hinner : inner <:+: (Piece.tag raw inner).written := ⟨opening raw, closing raw, rfl⟩
        exact ((infix_of_token_inclusion htoken).trans hinner).trans
          (List.prefix_append _ rest).isInfix
    · exact (ih hmore hx).trans (List.suffix_append _ rest).isInfix

/-- **What a text mentions is a part of it.** -/
theorem infix_of_mem_mentions (h : name ∈ mentions text) : name.toList <:+: text.toList := by
  obtain ⟨x, hx, hincluded⟩ := List.mem_filterMap.1 h
  have hlexemes : lexemes _ text.toList =
      ⟨(tokenize text .start).lexemes, (tokenize text .start).stopped⟩ := rfl
  refine infix_of_mem_lexemes hlexemes hx ?_
  generalize x.token = token at hincluded
  cases token with
  | inclusion included => exact congrArg Token.inclusion (Option.some.inj hincluded)
  | _ => cases hincluded

end Markup

/-! ## Layouts -/

namespace Document

variable {source name value : String} {found : List Passage} {p : Passage} {d : Document}
  {cs : List Char} {entries : List (String × String)}

/-- The values of attributes are parts of the text that they stand in. -/
theorem Attributes.infix_of_mem (h : Attributes cs entries) (hmem : (name, value) ∈ entries) :
    value.toList <:+: cs := by
  induction h with
  | nil => cases hmem
  | @cons gap name' before behind value' rest quote entries _ _ _ _ _ _ _ ih =>
    rcases List.mem_cons.1 hmem with heq | hmem
    · obtain ⟨-, rfl⟩ := Prod.mk.inj heq
      rw [String.toList_ofList]
      exact ⟨gap ++ (name' ++ (before ++ '=' :: (behind ++ [quote]))), quote :: rest, by simp⟩
    · refine (ih hmem).trans ?_
      exact ⟨gap ++ (name' ++ (before ++ '=' :: (behind ++ quote :: (value' ++ [quote])))), [],
        by simp⟩

/-- What stands in a passage stands in its source. -/
theorem infix_of_mem_passages (h : passages source = .ok found) (hp : p ∈ found) :
    p.content.toList <:+: source.toList ∧
      ∀ name value, p.attributes.get? name = some value → value.toList <:+: source.toList := by
  obtain ⟨laid, last, hlaid, hsource, rfl⟩ := passagesFrom_eq_ok_iff.1 h
  obtain ⟨before, l, behind, hl, hwritten, rfl⟩ := hlaid.exists_of_mem hp
  have hstands : l.written <:+: source.toList := ⟨before, behind, by rw [hsource, hwritten]; simp⟩
  constructor
  · refine List.IsInfix.trans ?_ hstands
    exact ⟨l.opening, closingTag l.tag, by simp [Layout.passage, Layout.written]⟩
  · intro name value hvalue
    have hentry := Keyed.mem_of_mem_ofList (Keyed.mem_of_get? hvalue)
    refine ((hl.attributes.infix_of_mem hentry).trans ?_).trans hstands
    exact ⟨'<' :: l.tag, '>' :: (l.content ++ closingTag l.tag),
      by simp [Layout.written, Layout.opening]⟩

/-- **The template of a document and the name of its layout** are parts of its source. -/
theorem infix_of_parse (h : parse source = .ok d) :
    d.template.raw.toList <:+: source.toList ∧
      ∀ layout, d.layout? = some layout → layout.toList <:+: source.toList := by
  obtain ⟨found, hcut, hassemble⟩ := exists_passages_of_parse h
  obtain ⟨⟨_, p, hp, hdata⟩, ⟨_, q, hq, _, -, htemplate⟩, -⟩ := sections_of_assemble hassemble
  obtain ⟨-, hofData⟩ := infix_of_mem_passages hcut hp
  obtain ⟨hcontent, hofTemplate⟩ := infix_of_mem_passages hcut hq
  refine ⟨by rw [htemplate]; exact hcontent, fun layout hlayout => ?_⟩
  obtain ⟨hattribute, -⟩ := Option.filter_eq_some_iff.1 hlayout
  rw [attribute?, hdata, htemplate] at hattribute
  rcases Option.or_eq_some_iff.1 hattribute with hvalue | ⟨-, hvalue⟩
  · exact hofData _ _ hvalue
  · exact hofTemplate _ _ hvalue

end Document

/-! ## Names of a graph -/

namespace Graph

variable {library : Library} {root name other : String} {member : Member} {g : Graph}

/-- **What a source refers to is a part of its text.** -/
theorem infix_of_mem_references (hload : Member.load library name = .ok member)
    (h : other ∈ member.references) : other.toList <:+: member.source.toList := by
  obtain ⟨-, hcomponent, hreferences⟩ := load_eq_ok_iff.1 hload
  rw [hreferences, mem_referencesOf] at h
  unfold Component.ofSource at hcomponent
  split at hcomponent
  · obtain ⟨d, hparse, hd⟩ := Except.map_eq_ok_iff.1 hcomponent
    obtain ⟨htemplate, hlayout⟩ := Document.infix_of_parse hparse
    rw [← hd] at h
    rcases h with hmentioned | hname
    · exact (Markup.infix_of_mem_mentions hmentioned).trans htemplate
    · exact hlayout other hname
  · obtain ⟨nodes, -, hnodes⟩ := Except.map_eq_ok_iff.1 hcomponent
    rw [← hnodes] at h
    rcases h with hmentioned | hname
    · exact Markup.infix_of_mem_mentions hmentioned
    · cases hname

/-- **A name of a graph** is its root or a part of one of its sources. -/
theorem root_or_infix_of_mem_order (h : resolve library root = .ok g) (hname : name ∈ g.order) :
    name = root ∨ ∃ entry ∈ g.members, name.toList <:+: entry.2.source.toList := by
  have hsettled := settled_of_resolve h
  rcases Relation.ReflTransGen.cases_tail ((mem_order_iff h).1 hname) with rfl | hlast
  · exact .inl rfl
  · obtain ⟨before, hreaches, hrefers⟩ := hlast
    obtain ⟨member, hmember⟩ := mem_order_iff_member?.1 ((mem_order_iff h).2 hreaches)
    have hload := load_of_member? hsettled hmember
    have hstands := infix_of_mem_references hload ((refers_iff hload).1 hrefers)
    exact .inr ⟨(before, member), Keyed.mem_of_get? hmember, hstands⟩

end Graph

end Trellis
