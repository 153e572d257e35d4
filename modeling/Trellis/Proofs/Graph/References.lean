import Trellis.Graph.Basic
import Trellis.Proofs.Document.Template
import Trellis.Proofs.Markup.Inclusions
/-!
# Graph — what a source refers to

The references of a loaded source in terms of its text alone: the partials of
its markup, each once and in the order of their first mentions, and behind them
its layout. A source that has a component always has references, so loading
fails for no other reason than a source that is missing or malformed
(`load_eq_ok_iff`). What the markup mentions is what its tree includes
(`included_subset_references`).
-/

namespace Trellis

namespace Graph

variable {library : Library} {name other source : String} {component : Component} {member : Member}

/-- What a source refers to: the partials that its markup mentions, each once,
and its layout if that is not one of them. -/
def referencesOf (component : Component) (source : String) : List String :=
  let partials := (Markup.mentions (component.markup source)).eraseDups
  match component.layout? with
  | some layout => if layout ∈ partials then partials else partials ++ [layout]
  | none => partials

/-- That the source under a name is there and makes a component. -/
def Loads (library : Library) (name : String) : Prop :=
  ∃ source component, library.fetch name = .ok (some source) ∧
    Component.ofSource source = .ok component

/-- That the source under a name mentions another as a partial, or has it as its
layout. -/
def Refers (library : Library) (name other : String) : Prop :=
  ∃ source component, library.fetch name = .ok (some source) ∧
    Component.ofSource source = .ok component ∧
    (other ∈ Markup.mentions (component.markup source) ∨ component.layout? = some other)

theorem mem_referencesOf :
    other ∈ referencesOf component source ↔
      other ∈ Markup.mentions (component.markup source) ∨ component.layout? = some other := by
  unfold referencesOf
  cases component.layout? with
  | none => simp
  | some layout =>
    rw [Option.some.injEq]
    dsimp only
    split
    · next hlayout =>
      rw [List.mem_eraseDups] at hlayout ⊢
      constructor
      · exact .inl
      · rintro (h | rfl)
        · exact h
        · exact hlayout
    · rw [List.mem_append, List.mem_singleton, List.mem_eraseDups, eq_comm]

/-- The markup of a component has the component's tree. -/
theorem parseAt_markup (h : Component.ofSource source = .ok component) :
    ∃ origin, Markup.parseAt (component.markup source) origin = .ok component.nodes := by
  unfold Component.ofSource at h
  split at h
  · obtain ⟨d, hparse, rfl⟩ := Except.map_eq_ok_iff.1 h
    obtain ⟨⟨origin, htree⟩, -⟩ := Document.template_of_parse hparse
    exact ⟨origin, htree⟩
  · obtain ⟨nodes, hparse, rfl⟩ := Except.map_eq_ok_iff.1 h
    exact ⟨.start, Except.mapError_eq_ok_iff.1 hparse⟩

/-- A source has no more references than characters: each partial takes one of
its markup, and a layout stands outside of that. -/
theorem length_referencesOf_le (h : Component.ofSource source = .ok component) :
    (referencesOf component source).length ≤ source.toList.length := by
  have hpartials (text : String) : (Markup.mentions text).eraseDups.length ≤ text.toList.length := by
    rw [← Text.distinct_eq_eraseDups]
    exact Nat.le_trans (Text.length_distinct_le _) (Markup.length_mentions_le text)
  unfold Component.ofSource at h
  split at h
  · obtain ⟨d, hparse, rfl⟩ := Except.map_eq_ok_iff.1 h
    have hshorter := (Document.template_of_parse hparse).2
    have htemplate := hpartials d.template.raw
    unfold referencesOf
    split
    · dsimp only
      split
      · exact Nat.le_trans htemplate (Nat.le_of_lt hshorter)
      · rw [List.length_append, List.length_singleton]
        exact Nat.lt_of_le_of_lt htemplate hshorter
    · exact Nat.le_trans htemplate (Nat.le_of_lt hshorter)
  · obtain ⟨nodes, -, rfl⟩ := Except.map_eq_ok_iff.1 h
    exact hpartials source

/-- **A component always comes with its references.** -/
theorem ofSource_eq (h : Component.ofSource source = .ok component) :
    Member.ofSource source = .ok ⟨component, source, referencesOf component source⟩ := by
  obtain ⟨origin, hparse⟩ := parseAt_markup h
  have hpartials := Markup.mentionedPartials_eq hparse
  refine Except.bind_eq_ok_iff.2 ⟨component, h, Except.bind_eq_ok_iff.2 ⟨_, hpartials, ?_⟩⟩
  unfold referencesOf
  cases component.layout? with
  | none => rfl
  | some layout => simp [pure, Except.pure]

/-- **What loading a name amounts to.** -/
theorem load_eq_ok_iff :
    Member.load library name = .ok member ↔
      library.fetch name = .ok (some member.source) ∧
        Component.ofSource member.source = .ok member.component ∧
        member.references = referencesOf member.component member.source := by
  constructor
  · intro h
    unfold Member.load at h
    split at h
    · cases h
    · cases h
    · next source hfetch =>
      have hmade := Except.mapError_eq_ok_iff.1 h
      obtain ⟨component, hcomponent, -⟩ := Except.bind_eq_ok_iff.1 hmade
      rw [ofSource_eq hcomponent] at hmade
      obtain rfl := Except.ok.inj hmade
      exact ⟨hfetch, hcomponent, rfl⟩
  · rintro ⟨hfetch, hcomponent, hreferences⟩
    have hmade := ofSource_eq hcomponent
    rw [← hreferences] at hmade
    unfold Member.load
    rw [hfetch]
    exact Except.mapError_eq_ok_iff.2 hmade

theorem loads_iff : Loads library name ↔ ∃ member, Member.load library name = .ok member := by
  constructor
  · rintro ⟨source, component, hfetch, hcomponent⟩
    exact ⟨⟨component, source, referencesOf component source⟩,
      load_eq_ok_iff.2 ⟨hfetch, hcomponent, rfl⟩⟩
  · rintro ⟨member, hload⟩
    obtain ⟨hfetch, hcomponent, -⟩ := load_eq_ok_iff.1 hload
    exact ⟨member.source, member.component, hfetch, hcomponent⟩

/-- **A name refers to what its member lists.** -/
theorem refers_iff (hload : Member.load library name = .ok member) :
    Refers library name other ↔ other ∈ member.references := by
  obtain ⟨hfetch, hcomponent, hreferences⟩ := load_eq_ok_iff.1 hload
  rw [hreferences, mem_referencesOf]
  constructor
  · rintro ⟨source, component, hother, hmade, hmentions⟩
    rw [hfetch] at hother
    obtain rfl := Option.some.inj (Except.ok.inj hother)
    rw [hcomponent] at hmade
    obtain rfl := Except.ok.inj hmade
    exact hmentions
  · intro hmentions
    exact ⟨member.source, member.component, hfetch, hcomponent, hmentions⟩

/-- **What a tree includes is referred to.** -/
theorem included_subset_references (hload : Member.load library name = .ok member) :
    Markup.Node.included member.component.nodes ⊆ member.references := by
  obtain ⟨-, hcomponent, hreferences⟩ := load_eq_ok_iff.1 hload
  obtain ⟨origin, hparse⟩ := parseAt_markup hcomponent
  rw [Markup.included_eq_mentions hparse, hreferences]
  exact fun other hother => mem_referencesOf.2 (.inl hother)

/-- A layout is referred to. -/
theorem mem_references_of_layout? (hload : Member.load library name = .ok member)
    (hlayout : member.component.layout? = some other) : other ∈ member.references := by
  obtain ⟨-, -, hreferences⟩ := load_eq_ok_iff.1 hload
  rw [hreferences]
  exact mem_referencesOf.2 (.inr hlayout)

/-- **The tokens of a text and its tree tell the same.** Of a text with a tree the
partials that its tokens mention are those that the tree names, the values that
the tree shows are those of its tokens, each once and in order, and its blocks
are its openers, one for one and at the same places. So a source that has a
component always has references, and they are the partials that its tree names
and its layout. -/
theorem collected_eq_lexed :
    (∀ text nodes, Markup.parse text = .ok nodes →
      Markup.mentionedPartials text = .ok (Markup.Node.inclusionNames nodes) ∧
      Markup.Node.placeholderNames nodes =
        Text.distinct ((Markup.tokenize text .start).lexemes.filterMap fun x => x.token.shown?) ∧
      (Markup.Node.blocks nodes).map Markup.Node.leading =
        ((Markup.tokenize text .start).lexemes.filter fun x => x.token.isOpener).map
          Markup.Lexeme.start) ∧
    ∀ source component, Component.ofSource source = .ok component →
      Markup.mentionedPartials (component.markup source) =
        .ok (Markup.Node.inclusionNames component.nodes) ∧
      ∃ member, Member.ofSource source = .ok member ∧ member.component = component ∧
        ∀ name, name ∈ member.references ↔
          name ∈ Markup.Node.inclusionNames component.nodes ∨ component.layout? = some name := by
  refine ⟨?_, ?_⟩
  · intro text nodes h
    have hparse := Except.mapError_eq_ok_iff.1 h
    have hderives := (Markup.treeOf_eq_ok_iff.1 hparse).2
    exact ⟨Markup.mentionedPartials_of_parseAt hparse, Markup.placeholderNames_of_derives hderives,
      Markup.leading_blocks hderives⟩
  · intro source component h
    obtain ⟨origin, hparse⟩ := parseAt_markup h
    refine ⟨Markup.mentionedPartials_of_parseAt hparse, _, ofSource_eq h, rfl, ?_⟩
    intro name
    rw [Markup.inclusionNames_eq, Text.mem_distinct, Markup.included_eq_mentions hparse]
    exact mem_referencesOf

/-- Markup with partials in both branches of a block, one of them named twice. -/
def cardText : String :=
  "\x7b\x7b> icon\x7d\x7d\x7b\x7b#if title\x7d\x7d\x7b\x7btitle\x7d\x7d\x7b\x7belse\x7d\x7d" ++
    "\x7b\x7b> blank \x7d\x7d\x7b\x7b>icon\x7d\x7d\x7b\x7b/if\x7d\x7d"

/-- The markup in a document with a layout. -/
def cardSource : String :=
  "<data layout='frame'></data>\n<template>" ++ cardText ++ "</template>"

/-- A partial named twice, and a layout that is no partial. -/
theorem collected_eq_lexed_card :
    (∃ nodes, Markup.parse cardText = .ok nodes ∧
      Markup.mentionedPartials cardText = .ok (Markup.Node.inclusionNames nodes) ∧
      Markup.Node.placeholderNames nodes =
        Text.distinct
          ((Markup.tokenize cardText .start).lexemes.filterMap fun x => x.token.shown?) ∧
      (Markup.Node.blocks nodes).map Markup.Node.leading =
        ((Markup.tokenize cardText .start).lexemes.filter fun x => x.token.isOpener).map
          Markup.Lexeme.start) ∧
    ∃ component member, Component.ofSource cardSource = .ok component ∧
      Member.ofSource cardSource = .ok member ∧
        ∀ name, name ∈ member.references ↔
          name ∈ Markup.Node.inclusionNames component.nodes ∨ component.layout? = some name := by
  have htext : (Markup.parse cardText).isOk = true := by decide +kernel
  have hsource : (Component.ofSource cardSource).isOk = true := by decide +kernel
  obtain ⟨nodes, hnodes⟩ := Except.exists_eq_ok htext
  obtain ⟨component, hcomponent⟩ := Except.exists_eq_ok hsource
  obtain ⟨-, member, hmember, -, hreferences⟩ := collected_eq_lexed.2 cardSource component hcomponent
  exact ⟨⟨nodes, hnodes, collected_eq_lexed.1 cardText nodes hnodes⟩,
    component, member, hcomponent, hmember, hreferences⟩

end Graph

end Trellis
