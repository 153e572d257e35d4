import Mathlib.Data.List.Infix
import Mathlib.Data.List.Nodup
import Trellis.Document.Basic
import Trellis.Proofs.Except
import Trellis.Proofs.Text.Distinct
/-!
# Document — the passages that make one

Passages make a document if one of them is data or a schema, one a template, at
most one logic and no other is there, in whatever order they stand
(`complete_iff`). What is wrong with others is settled in a fixed order: tags that
are unknown, roles filled again, roles left empty, and last the markup of the
template (`Refused`). Checking the passages and putting them together are two
passes over them that agree (`parseWith_exact`).
-/

namespace Trellis

namespace Document

variable {passages before : List Passage} {p : Passage} {kind role : SectionKind} {tag : String}
  {text : String} {d : Document} {e : SourceError}

/-! ## Tags and the roles that they fill -/

/-- The tags that sections have. -/
def sectionTags : List String :=
  ["data", "schema", "template", "logic"]

/-- The tags by which a role is filled. -/
def tagsOf : SectionKind → List String
  | .data => ["data", "schema"]
  | .schema => []
  | .template => ["template"]
  | .logic => ["logic"]

theorem ofTag?_tag (kind : SectionKind) : SectionKind.ofTag? kind.tag = some kind := by
  cases kind <;> rfl

/-- **A tag is of the kind that has it.** -/
theorem ofTag?_eq_some_iff : SectionKind.ofTag? tag = some kind ↔ tag = kind.tag := by
  constructor
  · intro h
    rw [SectionKind.ofTag?] at h
    have htag := List.find?_some h
    exact (beq_iff_eq.1 htag).symm
  · rintro rfl
    exact ofTag?_tag kind

theorem mem_sectionTags_iff : tag ∈ sectionTags ↔ ∃ kind : SectionKind, tag = kind.tag := by
  constructor
  · intro h
    simp only [sectionTags, List.mem_cons, List.not_mem_nil, or_false] at h
    rcases h with rfl | rfl | rfl | rfl
    · exact ⟨.data, rfl⟩
    · exact ⟨.schema, rfl⟩
    · exact ⟨.template, rfl⟩
    · exact ⟨.logic, rfl⟩
  · rintro ⟨kind, rfl⟩
    cases kind <;> decide

theorem ofTag?_eq_none_iff : SectionKind.ofTag? tag = none ↔ tag ∉ sectionTags := by
  simp only [Option.eq_none_iff_forall_ne_some, ne_eq, ofTag?_eq_some_iff, mem_sectionTags_iff,
    not_exists]

theorem tag_injective : Function.Injective SectionKind.tag := by
  intro a b h
  have hsome := ofTag?_tag a
  rw [h, ofTag?_tag] at hsome
  exact (Option.some.inj hsome).symm

/-- **A tag fills a role if its kind does.** -/
theorem any_role_eq (tag : String) (role : SectionKind) :
    ((SectionKind.ofTag? tag).any fun kind => kind.role == role) = decide (tag ∈ tagsOf role) := by
  cases hkind : SectionKind.ofTag? tag with
  | none =>
    have hunknown := ofTag?_eq_none_iff.1 hkind
    simp only [sectionTags, List.mem_cons, not_or] at hunknown
    cases role <;> simp_all [tagsOf]
  | some kind =>
    obtain rfl := ofTag?_eq_some_iff.1 hkind
    cases kind <;> cases role <;> decide

/-- The tags of a role are those of the kinds that fill it. -/
theorem mem_tagsOf_iff :
    tag ∈ tagsOf role ↔ ∃ kind : SectionKind, kind.role = role ∧ tag = kind.tag := by
  have hany := any_role_eq tag role
  rw [Bool.eq_iff_iff, decide_eq_true_iff] at hany
  rw [← hany, Option.any_eq_true]
  simp only [ofTag?_eq_some_iff, beq_iff_eq, and_comm]

/-- No tag fills two roles. -/
theorem role_eq_of_mem_tagsOf {other : SectionKind} (h : tag ∈ tagsOf role)
    (hother : tag ∈ tagsOf other) : role = other := by
  obtain ⟨kind, rfl, rfl⟩ := mem_tagsOf_iff.1 h
  obtain ⟨kind', rfl, htag⟩ := mem_tagsOf_iff.1 hother
  rw [tag_injective htag]

/-! ## Passages of known kinds -/

theorem mem_knownPassages_iff :
    (kind, p) ∈ knownPassages passages ↔ p ∈ passages ∧ p.tag = kind.tag := by
  simp only [knownPassages, List.mem_filterMap, Option.map_eq_some_iff, ofTag?_eq_some_iff,
    Prod.mk.injEq]
  constructor
  · rintro ⟨q, hq, _, htag, rfl, rfl⟩
    exact ⟨hq, htag⟩
  · rintro ⟨hp, htag⟩
    exact ⟨p, hp, kind, htag, rfl, rfl⟩

theorem knownPassages_cons (htag : p.tag = kind.tag) (passages : List Passage) :
    knownPassages (p :: passages) = (kind, p) :: knownPassages passages := by
  rw [knownPassages, List.filterMap_cons, ofTag?_eq_some_iff.2 htag]
  rfl

/-- The roles that passages fill, in their order. -/
def roles (passages : List Passage) : List SectionKind :=
  (knownPassages passages).map fun f => f.1.role

/-- How often a role is filled. -/
theorem count_roles (passages : List Passage) (role : SectionKind) :
    (roles passages).count role = passages.countP fun p => p.tag ∈ tagsOf role := by
  rw [roles, List.count_eq_countP, List.countP_map, knownPassages, List.countP_filterMap]
  congr 1
  funext p
  rw [← any_role_eq]
  cases SectionKind.ofTag? p.tag <;> rfl

theorem mem_roles_iff : role ∈ roles passages ↔ ∃ p ∈ passages, p.tag ∈ tagsOf role := by
  rw [← List.count_pos_iff, count_roles, List.countP_pos_iff]
  simp

/-! ## Roles filled again -/

/-- The other tag of the role that data and schemas share. -/
def counterpart? (tag : String) : Option String :=
  if tag = "data" then some "schema"
  else if tag = "schema" then some "data"
  else none

/-- **The name under which a tag is reported** whose role one of the tags before it
fills: the tag itself if it is one of them, or both tags of the role. -/
def clash? (seen : List String) (tag : String) : Option String :=
  if tag ∈ seen then some tag
  else if (counterpart? tag).any (· ∈ seen) then some "data/schema"
  else none

/-- The passages whose role is filled by one of those before, each with the name under
which it is reported. -/
def clashes (passages : List Passage) : List (String × Passage) :=
  (passages.inits.zip passages).filterMap fun (before, p) =>
    (clash? (before.map Passage.tag) p.tag).map fun name => (name, p)

/-- Which name an earlier passage gives to a clash. -/
theorem clash?_tag (seen : List SectionKind) (kind : SectionKind) :
    clash? (seen.map SectionKind.tag) kind.tag =
      if seen.any fun earlier => earlier.role == kind.role then
        some (if seen.contains kind then kind.tag else "data/schema")
      else none := by
  have hmem (kind : SectionKind) : kind.tag ∈ seen.map SectionKind.tag ↔ kind ∈ seen :=
    List.mem_map_of_injective tag_injective
  have hdata := hmem .data
  have hschema := hmem .schema
  have hany : (seen.any fun earlier => earlier.role == kind.role) = true ↔
      kind ∈ seen ∨ ∃ other ∈ counterpart? kind.tag, other ∈ seen.map SectionKind.tag := by
    rw [List.any_eq_true]
    constructor
    · rintro ⟨earlier, hearlier, hrole⟩
      have htag := (hmem earlier).2 hearlier
      cases kind <;> cases earlier <;> simp_all [SectionKind.role, SectionKind.tag, counterpart?]
    · rintro (hkind | ⟨other, hother, hseen⟩)
      · exact ⟨kind, hkind, beq_self_eq_true _⟩
      · cases kind with
        | data =>
          obtain rfl := Option.some.inj hother
          exact ⟨.schema, hschema.1 hseen, rfl⟩
        | schema =>
          obtain rfl := Option.some.inj hother
          exact ⟨.data, hdata.1 hseen, rfl⟩
        | template => cases hother
        | logic => cases hother
  unfold clash?
  by_cases hkind : kind ∈ seen
  · rw [if_pos ((hmem kind).2 hkind), if_pos (hany.2 (.inl hkind)),
      if_pos (List.contains_iff_mem.2 hkind)]
  · rw [if_neg (fun h => hkind ((hmem kind).1 h))]
    by_cases hother : ∃ other ∈ counterpart? kind.tag, other ∈ seen.map SectionKind.tag
    · rw [if_pos (hany.2 (.inr hother)), if_pos, if_neg]
      · simpa using hkind
      · simpa [Option.any_eq_true] using hother
    · rw [if_neg (fun h => (hany.1 h).elim hkind hother), if_neg]
      simpa [Option.any_eq_true] using hother

/-- The clashes among passages behind tags that were seen before them. -/
theorem repeatedFrom_eq (hknown : ∀ p ∈ passages, p.tag ∈ sectionTags)
    (seen : List SectionKind) :
    repeatedFrom seen (knownPassages passages) =
      (passages.inits.zip passages).filterMap fun (before, p) =>
        (clash? (seen.map SectionKind.tag ++ before.map Passage.tag) p.tag).map fun name =>
          (name, p) := by
  induction passages generalizing seen with
  | nil => rfl
  | cons p passages ih =>
    obtain ⟨hp, hknown⟩ := List.forall_mem_cons.1 hknown
    obtain ⟨kind, htag⟩ := mem_sectionTags_iff.1 hp
    have hmore := ih hknown (seen ++ [kind])
    have hshift : ((passages.inits.map fun before => p :: before).zip passages).filterMap
        (fun (before, q) =>
          (clash? (seen.map SectionKind.tag ++ before.map Passage.tag) q.tag).map fun name =>
            (name, q)) = repeatedFrom (seen ++ [kind]) (knownPassages passages) := by
      rw [hmore, List.zip_map_left, List.filterMap_map]
      congr 1
      funext ⟨before, q⟩
      simp [htag]
    rw [knownPassages_cons htag, repeatedFrom, List.inits_cons, List.zip_cons_cons,
      List.filterMap_cons, hshift]
    dsimp only
    rw [List.map_nil, List.append_nil, htag, clash?_tag]
    split <;> rfl

/-- **Roles filled again are found where they are.** -/
theorem repeatedFrom_eq_clashes (hknown : ∀ p ∈ passages, p.tag ∈ sectionTags) :
    repeatedFrom [] (knownPassages passages) = clashes passages :=
  repeatedFrom_eq hknown []

/-- No role is filled again exactly if each is filled by one passage at most. -/
theorem repeatedFrom_eq_nil_iff {seen : List SectionKind}
    {filled : List (SectionKind × Passage)} :
    repeatedFrom seen filled = [] ↔
      (∀ f ∈ filled, f.1.role ∉ seen.map SectionKind.role) ∧
        (filled.map fun f => f.1.role).Nodup := by
  induction filled generalizing seen with
  | nil => simp [repeatedFrom]
  | cons f filled ih =>
    obtain ⟨kind, p⟩ := f
    have hany : (seen.any fun earlier => earlier.role == kind.role) = true ↔
        kind.role ∈ seen.map SectionKind.role := by
      simp [List.any_eq_true, List.mem_map]
    rw [repeatedFrom]
    split
    · next hseen =>
      constructor
      · intro h
        cases h
      · rintro ⟨hfresh, -⟩
        exact absurd (hany.1 hseen) (hfresh _ List.mem_cons_self)
    · next hseen =>
      rw [hany] at hseen
      simp only [ih, List.map_append, List.map_cons, List.map_nil, List.mem_append,
        List.mem_singleton, List.forall_mem_cons, List.nodup_cons, List.mem_map, not_or,
        not_exists, not_and] at hseen ⊢
      constructor
      · rintro ⟨hfresh, hnodup⟩
        exact ⟨⟨hseen, fun f hf => (hfresh f hf).1⟩, fun f hf => (hfresh f hf).2, hnodup⟩
      · rintro ⟨⟨-, hfresh⟩, hapart, hnodup⟩
        exact ⟨fun f hf => ⟨hfresh f hf, hapart f hf⟩, hnodup⟩

/-! ## What the check finds -/

/-- The required roles that no passage fills, by their tags. -/
def emptyRoles (passages : List Passage) : List String :=
  ([SectionKind.data, SectionKind.template].filter fun role =>
    !passages.any fun p => p.tag ∈ tagsOf role).map SectionKind.tag

/-- A role is filled if a passage has one of its tags. -/
theorem any_knownPassages_eq (passages : List Passage) (role : SectionKind) :
    (((knownPassages passages).map Prod.fst).any fun kind => kind.role == role) =
      passages.any fun p => p.tag ∈ tagsOf role := by
  have hroles : role ∈ roles passages ↔ ∃ f ∈ knownPassages passages, f.1.role = role :=
    List.mem_map
  rw [Bool.eq_iff_iff]
  simp [← mem_roles_iff, hroles]

theorem missingTags_eq (passages : List Passage) :
    missingTags ((knownPassages passages).map Prod.fst) = emptyRoles passages := by
  have htemplate : ((knownPassages passages).map Prod.fst).contains .template =
      ((knownPassages passages).map Prod.fst).any fun kind => kind.role == .template := by
    rw [List.contains_eq_any_beq]
    congr 1
    funext kind
    cases kind <;> rfl
  rw [missingTags, htemplate, any_knownPassages_eq, any_knownPassages_eq]
  simp only [emptyRoles, List.filter_cons, List.filter_nil]
  cases passages.any fun p => p.tag ∈ tagsOf .data <;>
    cases passages.any fun p => p.tag ∈ tagsOf .template <;> rfl

/-- **Passages that make a document.** -/
structure Complete (passages : List Passage) : Prop where
  /-- No tag is unknown. -/
  known : ∀ p ∈ passages, p.tag ∈ sectionTags
  /-- There is one section of data or one schema. -/
  data : (passages.countP fun p => p.tag ∈ tagsOf .data) = 1
  /-- There is one template. -/
  template : (passages.countP fun p => p.tag ∈ tagsOf .template) = 1
  /-- There is at most one section of logic. -/
  logic : (passages.countP fun p => p.tag ∈ tagsOf .logic) ≤ 1

theorem emptyRoles_eq_nil_iff :
    emptyRoles passages = [] ↔ .data ∈ roles passages ∧ .template ∈ roles passages := by
  simp [emptyRoles, mem_roles_iff]

theorem nodup_roles_iff :
    (roles passages).Nodup ↔ ∀ role, (passages.countP fun p => p.tag ∈ tagsOf role) ≤ 1 := by
  simp only [List.nodup_iff_count_le_one, count_roles]

/-- Complete passages fill no role twice. -/
theorem Complete.nodup_roles (h : Complete passages) : (roles passages).Nodup := by
  refine nodup_roles_iff.2 fun role => ?_
  cases role with
  | data => exact Nat.le_of_eq h.data
  | schema => simp [tagsOf]
  | template => exact Nat.le_of_eq h.template
  | logic => exact h.logic

/-- **Complete passages are those in which nothing is wrong.** -/
theorem complete_iff_unclashed :
    Complete passages ↔
      (∀ p ∈ passages, p.tag ∈ sectionTags) ∧ clashes passages = [] ∧ emptyRoles passages = [] := by
  have hclashes (hknown : ∀ p ∈ passages, p.tag ∈ sectionTags) :
      clashes passages = [] ↔ (roles passages).Nodup := by
    rw [← repeatedFrom_eq_clashes hknown, repeatedFrom_eq_nil_iff, roles]
    simp
  rw [emptyRoles_eq_nil_iff, ← List.count_pos_iff, ← List.count_pos_iff, count_roles, count_roles]
  constructor
  · intro h
    have hdata := h.data
    have htemplate := h.template
    exact ⟨h.known, (hclashes h.known).2 h.nodup_roles, by omega, by omega⟩
  · rintro ⟨hknown, hunclashed, hdata, htemplate⟩
    have honce := nodup_roles_iff.1 ((hclashes hknown).1 hunclashed)
    have hdata' := honce .data
    have htemplate' := honce .template
    exact ⟨hknown, by omega, by omega, honce .logic⟩

/-! ## Passages in their roles -/

/-- **Passages in the roles of a document.** -/
structure Arrangement where
  /-- Whether the data stands for itself or a schema for it. -/
  kind : SectionKind
  /-- The passage of the data. -/
  data : Passage
  /-- The passage of the template. -/
  template : Passage
  /-- The passage of the logic. -/
  logic : Option Passage
  slot : kind.role = .data
  data_tag : data.tag = kind.tag
  template_tag : template.tag = SectionKind.template.tag
  logic_tag : ∀ p ∈ logic, p.tag = SectionKind.logic.tag

namespace Arrangement

/-- All of them. -/
def toList (a : Arrangement) : List Passage :=
  a.data :: a.template :: a.logic.toList

/-- The tree of the template, or the fault of its markup. -/
def tree (a : Arrangement) : Except SourceError (List Markup.Node) :=
  Markup.parseAt a.template.content a.template.contentLocation

/-- The document that they make with a tree of the template. -/
def document (a : Arrangement) (tree : List Markup.Node) : Document where
  data := textSection (a.kind, a.data)
  template := sectionOf .template a.template tree
  logic := a.logic.map fun p => textSection (.logic, p)

/-- Arranged passages are complete. -/
theorem complete (a : Arrangement) : Complete a.toList := by
  obtain ⟨kind, data, template, logic, hslot, hdata, htemplate, hlogic⟩ := a
  have hkind : kind = .data ∨ kind = .schema := by
    cases kind <;> cases hslot <;> simp
  cases logic with
  | none =>
    rcases hkind with rfl | rfl <;>
      constructor <;> simp [toList, hdata, htemplate, SectionKind.tag, sectionTags, tagsOf]
  | some p =>
    have hp := hlogic p rfl
    rcases hkind with rfl | rfl <;>
      constructor <;> simp [toList, hdata, htemplate, hp, SectionKind.tag, sectionTags, tagsOf]

end Arrangement

/-- A passage that is the only one of its sort is one of all and not of the rest. -/
theorem exists_perm_cons {sort : Passage → Bool} (h : passages.countP sort = 1) :
    ∃ p rest, passages.Perm (p :: rest) ∧ sort p = true ∧ rest.countP sort = 0 := by
  obtain ⟨p, hp, hsort⟩ := List.countP_pos_iff.1 (by omega : 0 < passages.countP sort)
  obtain ⟨front, behind, rfl⟩ := List.append_of_mem hp
  have hperm : (front ++ p :: behind).Perm (p :: (front ++ behind)) := List.perm_middle
  refine ⟨p, front ++ behind, hperm, hsort, ?_⟩
  rw [hperm.countP_eq, List.countP_cons_of_pos hsort] at h
  omega

theorem Complete.perm (h : Complete passages) {others : List Passage}
    (hperm : passages.Perm others) :
    Complete others where
  known p hp := h.known p (hperm.mem_iff.2 hp)
  data := hperm.countP_eq _ ▸ h.data
  template := hperm.countP_eq _ ▸ h.template
  logic := hperm.countP_eq _ ▸ h.logic

/-- **Complete passages can be arranged.** -/
theorem complete_iff : Complete passages ↔ ∃ a : Arrangement, passages.Perm a.toList := by
  constructor
  · intro h
    obtain ⟨data, others, hothers, hdata, hnodata⟩ := exists_perm_cons h.data
    have hdata : data.tag ∈ tagsOf .data := of_decide_eq_true hdata
    obtain ⟨kind, hslot, hkind⟩ := mem_tagsOf_iff.1 hdata
    have hone : (others.countP fun p => p.tag ∈ tagsOf .template) = 1 := by
      have hcount := (h.perm hothers).template
      rwa [List.countP_cons_of_neg] at hcount
      rw [decide_eq_true_iff]
      intro htemplate
      cases role_eq_of_mem_tagsOf hdata htemplate
    obtain ⟨template, rest, hrest, htemplate, hnotemplate⟩ := exists_perm_cons hone
    have htemplate : template.tag = SectionKind.template.tag :=
      List.mem_singleton.1 (of_decide_eq_true htemplate)
    have hperm : passages.Perm (data :: template :: rest) := hothers.trans (hrest.cons data)
    have hall := h.perm hperm
    -- what is left is neither data nor a template, so it is logic
    have hlogic : ∀ p ∈ rest, p.tag = SectionKind.logic.tag := by
      intro p hp
      have hp' : p ∈ others := hrest.mem_iff.2 (List.mem_cons_of_mem template hp)
      obtain ⟨kind, hkind⟩ := mem_sectionTags_iff.1
        (hall.known p (List.mem_cons_of_mem data (List.mem_cons_of_mem template hp)))
      have hnodata := List.countP_eq_zero.1 hnodata p hp'
      have hnotemplate := List.countP_eq_zero.1 hnotemplate p hp
      cases kind <;> simp_all [tagsOf, SectionKind.tag]
    have hlength : rest.length ≤ 1 := by
      have hcount : (rest.countP fun p => p.tag ∈ tagsOf .logic) = rest.length :=
        List.countP_eq_length.2 fun p hp => by simp [hlogic p hp, tagsOf, SectionKind.tag]
      have hsub : (rest.countP fun p => p.tag ∈ tagsOf .logic) ≤
          (data :: template :: rest).countP fun p => p.tag ∈ tagsOf .logic :=
        List.Sublist.countP_le ((List.sublist_cons_self _ _).trans (List.sublist_cons_self _ _))
      have := hall.logic
      omega
    cases rest with
    | nil => exact ⟨⟨kind, data, template, none, hslot, hkind, htemplate, by simp⟩, hperm⟩
    | cons p more =>
      cases more with
      | nil =>
        exact ⟨⟨kind, data, template, some p, hslot, hkind, htemplate, by simpa using hlogic⟩, hperm⟩
      | cons => simp at hlength
  · rintro ⟨a, hperm⟩
    exact a.complete.perm hperm.symm

/-! ## Putting passages together -/

/-- A role that is filled once is filled by the passage that has its tag. -/
theorem filling?_eq_some (hnodup : (roles passages).Nodup) (hp : p ∈ passages)
    (htag : p.tag = kind.tag) : filling? kind.role passages = some (kind, p) := by
  have hmem : (kind, p) ∈ knownPassages passages := mem_knownPassages_iff.2 ⟨hp, htag⟩
  have hsome : (filling? kind.role passages).isSome = true :=
    List.find?_isSome.2 ⟨(kind, p), hmem, beq_self_eq_true _⟩
  obtain ⟨f, hf⟩ := Option.isSome_iff_exists.1 hsome
  rw [hf]
  rw [filling?] at hf
  have hrole : f.1.role = kind.role := by simpa using List.find?_some hf
  rw [List.inj_on_of_nodup_map hnodup (List.mem_of_find?_eq_some hf) hmem hrole]

/-- A role that no passage fills is left open. -/
theorem filling?_eq_none (h : role ∉ roles passages) : filling? role passages = none := by
  refine List.find?_eq_none.2 fun f hf hrole => h ?_
  exact List.mem_map.2 ⟨f, hf, beq_iff_eq.1 hrole⟩

namespace Arrangement

/-- The template is known by its tag. -/
theorem eq_template (a : Arrangement) (hp : p ∈ a.toList) (htag : p.tag ∈ tagsOf .template) :
    p = a.template := by
  have hrole {kind : SectionKind} (hkind : p.tag = kind.tag) : kind.role = .template :=
    role_eq_of_mem_tagsOf (mem_tagsOf_iff.2 ⟨kind, rfl, hkind⟩) htag
  simp only [toList, List.mem_cons, Option.mem_toList] at hp
  rcases hp with rfl | rfl | hlogic
  · have hslot := hrole a.data_tag
    rw [a.slot] at hslot
    cases hslot
  · rfl
  · cases hrole (a.logic_tag p hlogic)

/-- Logic is known by its tag. -/
theorem mem_logic (a : Arrangement) (hp : p ∈ a.toList) (htag : p.tag ∈ tagsOf .logic) :
    p ∈ a.logic := by
  have hrole {kind : SectionKind} (hkind : p.tag = kind.tag) : kind.role = .logic :=
    role_eq_of_mem_tagsOf (mem_tagsOf_iff.2 ⟨kind, rfl, hkind⟩) htag
  simp only [toList, List.mem_cons, Option.mem_toList] at hp
  rcases hp with rfl | rfl | hlogic
  · have hslot := hrole a.data_tag
    rw [a.slot] at hslot
    cases hslot
  · cases hrole a.template_tag
  · exact hlogic

variable {a : Arrangement}

theorem template_mem (h : passages.Perm a.toList) : a.template ∈ passages :=
  h.mem_iff.2 (List.mem_cons_of_mem a.data List.mem_cons_self)

theorem filling?_data (h : passages.Perm a.toList) :
    filling? .data passages = some (a.kind, a.data) := by
  rw [← a.slot]
  exact filling?_eq_some (a.complete.perm h.symm).nodup_roles
    (h.mem_iff.2 List.mem_cons_self) a.data_tag

theorem filling?_template (h : passages.Perm a.toList) :
    filling? .template passages = some (.template, a.template) :=
  filling?_eq_some (a.complete.perm h.symm).nodup_roles (template_mem h) a.template_tag

theorem filling?_logic (h : passages.Perm a.toList) :
    filling? .logic passages = a.logic.map fun p => (.logic, p) := by
  cases hlogic : a.logic with
  | none =>
    refine filling?_eq_none fun hrole => ?_
    obtain ⟨p, hp, htag⟩ := mem_roles_iff.1 hrole
    have hmem := a.mem_logic (h.mem_iff.1 hp) htag
    rw [hlogic] at hmem
    cases hmem
  | some p =>
    have hp : p ∈ passages := h.mem_iff.2 (by simp [toList, hlogic])
    exact filling?_eq_some (a.complete.perm h.symm).nodup_roles hp (a.logic_tag p hlogic)

/-- **Put together, arranged passages make their document**, or fail as the template
does, in whatever order they stand. -/
theorem assemble_eq (h : passages.Perm a.toList) :
    assemble passages = a.tree.map a.document := by
  unfold assemble
  rw [filling?_data h, filling?_template h, filling?_logic h]
  dsimp only
  rw [← tree]
  cases a.tree with
  | error e => rfl
  | ok tree =>
    cases hl : a.logic <;> simp [document, hl, Except.map, bind, Except.bind, pure, Except.pure]

end Arrangement

/-! ## What is wrong with passages -/

/-- **What is wrong with passages of a text that make no document**, what comes first
in the order of these cases. -/
inductive Refused (text : String) (passages : List Passage) : SourceError → Prop where
  /-- Some tags are unknown; each is named once, at the first. -/
  | unknown {first : Passage} {rest : List Passage}
      (found : passages.filter (fun p => p.tag ∉ sectionTags) = first :: rest) :
      Refused text passages
        { fault := .unknownSections ((first :: rest).map Passage.tag).eraseDups
          location := first.location }
  /-- Some roles are filled again; each name stands once, at the first. -/
  | repeated {name : String} {first : Passage} {rest : List (String × Passage)}
      (known : ∀ p ∈ passages, p.tag ∈ sectionTags)
      (found : clashes passages = (name, first) :: rest) :
      Refused text passages
        { fault := .duplicateSections (name :: rest.map Prod.fst).eraseDups
          location := first.location }
  /-- Some roles are left empty; they are missing at the end of the text. -/
  | missing (known : ∀ p ∈ passages, p.tag ∈ sectionTags) (once : clashes passages = [])
      (found : emptyRoles passages ≠ []) :
      Refused text passages
        { fault := .missingSections (emptyRoles passages)
          location := Location.start.after text.toList }
  /-- The markup of the template is at fault. -/
  | template {p : Passage} {e : SourceError} (complete : Complete passages) (member : p ∈ passages)
      (tag : p.tag ∈ tagsOf .template)
      (found : Markup.parseAt p.content p.contentLocation = .error e) : Refused text passages e

theorem unknownPassages_eq (passages : List Passage) :
    unknownPassages passages = passages.filter fun p => p.tag ∉ sectionTags := by
  rw [unknownPassages]
  congr 1
  funext p
  rw [Bool.eq_iff_iff, Option.isNone_iff_eq_none, ofTag?_eq_none_iff, decide_eq_true_iff]

theorem filter_unknown_eq_nil_iff :
    passages.filter (fun p => p.tag ∉ sectionTags) = [] ↔ ∀ p ∈ passages, p.tag ∈ sectionTags := by
  simp

/-- **Exactly the complete passages pass the check.** -/
theorem checkPassages_eq_ok_iff : checkPassages passages text = .ok () ↔ Complete passages := by
  constructor
  · intro h
    unfold checkPassages at h
    dsimp only at h
    split at h
    · cases h
    · next hunknown =>
      rw [unknownPassages_eq] at hunknown
      have hknown := filter_unknown_eq_nil_iff.1 hunknown
      split at h
      · cases h
      · next hclashes =>
        rw [repeatedFrom_eq_clashes hknown] at hclashes
        split at h
        · next hempty =>
          rw [missingTags_eq] at hempty
          exact complete_iff_unclashed.2 ⟨hknown, hclashes, hempty⟩
        · cases h
  · intro h
    obtain ⟨hknown, hclashes, hempty⟩ := complete_iff_unclashed.1 h
    simp only [checkPassages, unknownPassages_eq, filter_unknown_eq_nil_iff.2 hknown,
      repeatedFrom_eq_clashes hknown, hclashes, missingTags_eq, hempty]

/-- Arranged passages make their document, or fail as the template does. -/
theorem Arrangement.ofPassages_eq {a : Arrangement} (h : passages.Perm a.toList) (text : String) :
    ofPassages passages text = a.tree.map a.document := by
  rw [ofPassages, checkPassages_eq_ok_iff.2 (a.complete.perm h.symm), ← assemble_eq h]
  rfl

/-- **What is wrong is what is reported.** -/
theorem Refused.ofPassages_eq (h : Refused text passages e) :
    ofPassages passages text = .error e := by
  have hfails (hcheck : checkPassages passages text = .error e) :
      ofPassages passages text = .error e := by
    rw [ofPassages, hcheck]
    rfl
  cases h with
  | unknown hfound =>
    refine hfails ?_
    simp only [checkPassages, unknownPassages_eq, hfound, Text.distinct_eq_eraseDups]
  | repeated hknown hfound =>
    refine hfails ?_
    simp only [checkPassages, unknownPassages_eq, filter_unknown_eq_nil_iff.2 hknown,
      repeatedFrom_eq_clashes hknown, hfound, Text.distinct_eq_eraseDups, List.map_cons]
  | missing hknown honce hfound =>
    refine hfails ?_
    obtain ⟨name, names, hnames⟩ := List.exists_cons_of_ne_nil hfound
    simp only [checkPassages, unknownPassages_eq, filter_unknown_eq_nil_iff.2 hknown,
      repeatedFrom_eq_clashes hknown, honce, missingTags_eq, hnames]
  | template hcomplete hp htag hfound =>
    obtain ⟨a, hperm⟩ := complete_iff.1 hcomplete
    rw [Arrangement.ofPassages_eq hperm, Arrangement.tree,
      ← a.eq_template (hperm.mem_iff.1 hp) htag, hfound]
    rfl

/-- **Passages are complete or refused.** -/
theorem refused_or_complete (passages : List Passage) (text : String) :
    (∃ e, Refused text passages e) ∨ Complete passages := by
  cases hunknown : passages.filter fun p => p.tag ∉ sectionTags with
  | cons first rest => exact .inl ⟨_, .unknown hunknown⟩
  | nil =>
    have hknown := filter_unknown_eq_nil_iff.1 hunknown
    cases hclashes : clashes passages with
    | cons first rest => exact .inl ⟨_, .repeated hknown hclashes⟩
    | nil =>
      by_cases hempty : emptyRoles passages = []
      · exact .inr (complete_iff_unclashed.2 ⟨hknown, hclashes, hempty⟩)
      · exact .inl ⟨_, .missing hknown hclashes hempty⟩

theorem ofPassages_eq_error_iff :
    ofPassages passages text = .error e ↔ Refused text passages e := by
  refine ⟨fun h => ?_, Refused.ofPassages_eq⟩
  rcases refused_or_complete passages text with ⟨e', hrefused⟩ | hcomplete
  · rw [hrefused.ofPassages_eq] at h
    exact Except.error.inj h ▸ hrefused
  · obtain ⟨a, hperm⟩ := complete_iff.1 hcomplete
    rw [Arrangement.ofPassages_eq hperm] at h
    refine .template hcomplete (Arrangement.template_mem hperm)
      (mem_tagsOf_iff.2 ⟨_, rfl, a.template_tag⟩) ?_
    rw [← Arrangement.tree]
    cases htree : a.tree with
    | error cause =>
      rw [htree] at h
      exact congrArg Except.error (Except.error.inj h)
    | ok tree =>
      rw [htree] at h
      cases h

theorem ofPassages_eq_ok_iff :
    ofPassages passages text = .ok d ↔
      ∃ (a : Arrangement) (tree : List Markup.Node), passages.Perm a.toList ∧
        a.tree = .ok tree ∧ d = a.document tree := by
  constructor
  · intro h
    rcases refused_or_complete passages text with ⟨e, hrefused⟩ | hcomplete
    · rw [hrefused.ofPassages_eq] at h
      cases h
    · obtain ⟨a, hperm⟩ := complete_iff.1 hcomplete
      rw [Arrangement.ofPassages_eq hperm] at h
      obtain ⟨tree, htree, rfl⟩ := Except.map_eq_ok_iff.1 h
      exact ⟨a, tree, hperm, htree, rfl⟩
  · rintro ⟨a, tree, hperm, htree, rfl⟩
    rw [Arrangement.ofPassages_eq hperm, htree]
    rfl

/-! ## Documents -/

/-- A text that is not blank makes the document that its passages make. -/
theorem parseWith_eq {cut : String → Except SourceError (List Passage)}
    (hcut : cut text = .ok passages) (hblank : Text.isBlankText text.toList = false) :
    parseWith cut text = (ofPassages passages text).mapError fun e => e.inSource text := by
  rw [parseWith, hblank, hcut]
  rfl

/-- **A text makes a document** if it is not blank and its passages make one. -/
theorem parseWith_eq_ok_iff {cut : String → Except SourceError (List Passage)} :
    parseWith cut text = .ok d ↔
      Text.isBlankText text.toList = false ∧
        ∃ passages, cut text = .ok passages ∧ ofPassages passages text = .ok d := by
  unfold parseWith
  cases Text.isBlankText text.toList with
  | true => simp
  | false => simp [Except.mapError_eq_ok_iff, Except.bind_eq_ok_iff]

/-- **Which passages make a document, and what is wrong with others.** Passages make
one if they are complete and their template has a tree. The document holds exactly
these passages, and does so in whatever order they stand. Others are refused for what
is wrong with them. Where the check passes, data and template are there to be put
together. -/
theorem parseWith_exact {cut : String → Except SourceError (List Passage)}
    (hcut : cut text = .ok passages) (hblank : Text.isBlankText text.toList = false) :
    ((∃ d, parseWith cut text = .ok d) ↔
      Complete passages ∧ ∀ p ∈ passages, p.tag ∈ tagsOf .template →
        ∃ tree, Markup.parseAt p.content p.contentLocation = .ok tree) ∧
    (∀ d, parseWith cut text = .ok d ↔
      ∃ (a : Arrangement) (tree : List Markup.Node), passages.Perm a.toList ∧
        a.tree = .ok tree ∧ d = a.document tree) ∧
    (∀ d, parseWith cut text = .ok d → ∀ (cut' : String → Except SourceError (List Passage))
      (passages' : List Passage), cut' text = .ok passages' → passages'.Perm passages →
        parseWith cut' text = .ok d) ∧
    (∀ e, parseWith cut text = .error e ↔
      ∃ cause, Refused text passages cause ∧ e = cause.inSource text) ∧
    (checkPassages passages text = .ok () →
      (filling? .data passages).isSome ∧ (filling? .template passages).isSome) := by
  have hok (d : Document) : parseWith cut text = .ok d ↔
      ∃ (a : Arrangement) (tree : List Markup.Node), passages.Perm a.toList ∧
        a.tree = .ok tree ∧ d = a.document tree := by
    rw [parseWith_eq hcut hblank, Except.mapError_eq_ok_iff, ofPassages_eq_ok_iff]
  refine ⟨⟨?_, ?_⟩, hok, ?_, ?_, ?_⟩
  · rintro ⟨d, h⟩
    obtain ⟨a, tree, hperm, htree, -⟩ := (hok d).1 h
    refine ⟨complete_iff.2 ⟨a, hperm⟩, fun p hp htag => ⟨tree, ?_⟩⟩
    rw [a.eq_template (hperm.mem_iff.1 hp) htag, ← htree, Arrangement.tree]
  · rintro ⟨hcomplete, htrees⟩
    obtain ⟨a, hperm⟩ := complete_iff.1 hcomplete
    obtain ⟨tree, htree⟩ := htrees a.template (Arrangement.template_mem hperm)
      (mem_tagsOf_iff.2 ⟨_, rfl, a.template_tag⟩)
    exact ⟨_, (hok _).2 ⟨a, tree, hperm, htree, rfl⟩⟩
  · intro d h cut' passages' hcut' hperm'
    obtain ⟨a, tree, hperm, hmade⟩ := (hok d).1 h
    rw [parseWith_eq hcut' hblank, Except.mapError_eq_ok_iff, ofPassages_eq_ok_iff]
    exact ⟨a, tree, hperm'.trans hperm, hmade⟩
  · intro e
    rw [parseWith_eq hcut hblank, Except.mapError_eq_error_iff]
    constructor
    · rintro ⟨cause, h, rfl⟩
      exact ⟨cause, ofPassages_eq_error_iff.1 h, rfl⟩
    · rintro ⟨cause, h, rfl⟩
      exact ⟨cause, ofPassages_eq_error_iff.2 h, rfl⟩
  · intro hcheck
    obtain ⟨a, hperm⟩ := complete_iff.1 (checkPassages_eq_ok_iff.1 hcheck)
    rw [Arrangement.filling?_data hperm, Arrangement.filling?_template hperm]
    exact ⟨rfl, rfl⟩

/-- Passages of which one fills the role of the first and one repeats its tag. -/
def strewn : List Passage :=
  [⟨"data", [], "1", .start, .start⟩, ⟨"template", [], "a", .start, .start⟩,
    ⟨"schema", [], "", ⟨2, 1, 20, 30⟩, .start⟩, ⟨"data", [], "2", ⟨3, 1, 31, 40⟩, .start⟩]

/-- A cut that finds them in every text. -/
def strew : String → Except SourceError (List Passage) := fun _ => .ok strewn

theorem parseWith_exact_strewn :
    strew "a" = .ok strewn ∧ Text.isBlankText "a".toList = false ∧
      parseWith strew "a" =
        .error (SourceError.inSource
          { fault := .duplicateSections ["data/schema", "data"]
            location := ⟨2, 1, 20, 30⟩ } "a") := by
  have hcut : strew "a" = .ok strewn := rfl
  have hblank : Text.isBlankText "a".toList = false := by decide
  have hknown : ∀ p ∈ strewn, p.tag ∈ sectionTags := by decide
  have hrefused : Refused "a" strewn
      { fault := .duplicateSections ["data/schema", "data"], location := ⟨2, 1, 20, 30⟩ } :=
    .repeated hknown rfl
  obtain ⟨-, -, -, herror, -⟩ := parseWith_exact hcut hblank
  exact ⟨hcut, hblank, (herror _).2 ⟨_, hrefused, rfl⟩⟩

end Document

end Trellis
