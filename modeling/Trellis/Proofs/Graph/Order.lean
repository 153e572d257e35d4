import Trellis.Proofs.Graph.Resolve
/-!
# Graph — the order of its members

The members of a graph are listed as a walk in depth from its root lists them,
each when all that it leads to is done with (`visits_iff`). So each name stands
once and behind all that it refers to, and the root stands last
(`ordered_of_resolve`). What holds of a member when it holds of all that it
refers to holds of every member (`Settled.induct`).
-/

namespace Trellis

namespace Graph

variable {library : Library} {g : Graph} {root name other : String} {member : Member}
  {members members' : List (String × Member)} {trail references listed : List String}

/-! ## Members by name -/

theorem settled_of_resolve (h : resolve library root = .ok g) : Settled library g.members :=
  (adds_of_resolve h).2.settled

/-- The listed names are those of members. -/
theorem mem_order_iff_member? : name ∈ g.order ↔ ∃ member, g.member? name = some member :=
  Keyed.mem_keys_iff

theorem member?_eq_some_iff (hsettled : Settled library g.members) :
    g.member? name = some member ↔ (name, member) ∈ g.members :=
  ⟨Keyed.mem_of_get?, Keyed.get?_of_mem hsettled.nodup⟩

theorem load_of_member? (hsettled : Settled library g.members)
    (hmember : g.member? name = some member) : Member.load library name = .ok member :=
  hsettled.load (Keyed.mem_of_get? hmember)

/-- The root of a graph is a member. -/
theorem exists_member?_root (h : resolve library root = .ok g) :
    ∃ member, g.member? g.root = some member := by
  obtain ⟨hroot, -⟩ := extends_of_resolve h
  rw [hroot]
  exact mem_order_iff_member?.1 ((mem_order_iff h).2 .refl)

/-- What a name of a graph refers to. -/
def referencesFrom (g : Graph) (name : String) : List String :=
  ((g.member? name).map Member.references).getD []

theorem referencesFrom_eq (hmember : g.member? name = some member) :
    g.referencesFrom name = member.references := by
  rw [referencesFrom, hmember]
  rfl

theorem mem_referencesFrom_iff :
    other ∈ g.referencesFrom name ↔
      ∃ member, g.member? name = some member ∧ other ∈ member.references := by
  cases hmember : g.member? name with
  | none => simp [referencesFrom, hmember]
  | some member => simp [referencesFrom, hmember]

namespace Settled

/-- What a member refers to is listed. -/
theorem closed (h : Settled library members) (hmem : (name, member) ∈ members)
    (hother : other ∈ member.references) : other ∈ names members := by
  have hname : name ∈ names members := List.mem_map_of_mem hmem
  have hrefers : Refers library name other := (refers_iff (h.load hmem)).2 hother
  exact h.mem_of_refers hname hrefers

/-- **A member stands behind all that it refers to.** -/
theorem idxOf_lt (h : Settled library members) (hmem : (name, member) ∈ members)
    (hother : other ∈ member.references) :
    (names members).idxOf other < (names members).idxOf name := by
  induction h with
  | nil => cases hmem
  | concat hsettled hfresh _ hclosed ih =>
    rw [names_concat]
    rcases List.mem_append.1 hmem with hmem | hmem
    · have hname : name ∈ names _ := List.mem_map_of_mem hmem
      rw [List.idxOf_append_of_mem (hsettled.closed hmem hother), List.idxOf_append_of_mem hname]
      exact ih hmem
    · obtain ⟨rfl, rfl⟩ := Prod.mk.inj (List.mem_singleton.1 hmem)
      have hlisted := hclosed other hother
      rw [List.idxOf_append_of_mem hlisted, List.idxOf_append_of_notMem hfresh]
      have hlt := List.idxOf_lt_length_of_mem hlisted
      omega

/-- **Induction along references**: what holds of a member when it holds of all that
it refers to holds of every member. -/
theorem induct {P : String → Member → Prop} (h : Settled library members)
    (step : ∀ name member, (name, member) ∈ members →
      (∀ other ∈ member.references, ∃ target, (other, target) ∈ members ∧ P other target) →
      P name member)
    (hmem : (name, member) ∈ members) : P name member := by
  induction hrank : (names members).idxOf name using Nat.strong_induction_on
    generalizing name member with
  | _ rank ih =>
    subst hrank
    refine step name member hmem fun other hother => ?_
    obtain ⟨⟨_, target⟩, htarget, rfl⟩ := List.mem_map.1 (h.closed hmem hother)
    exact ⟨target, htarget, ih _ (h.idxOf_lt hmem hother) htarget rfl⟩

end Settled

/-! ## Walks in depth -/

/-- How far a walk has got. -/
structure Walk where
  /-- The names that it met. -/
  met : List String
  /-- The names that it is done with, in order. -/
  listed : List String

/-- **A walk in depth through names**: one that was met before is passed over; any
other is met, what it leads to is walked through, and then it is listed. -/
inductive Visits (next : String → List String) : List String → Walk → Walk → Prop where
  | done {w : Walk} : Visits next [] w w
  | again {name : String} {rest : List String} {w w' : Walk} (met : name ∈ w.met)
      (more : Visits next rest w w') : Visits next (name :: rest) w w'
  | fresh {name : String} {rest : List String} {w between w' : Walk} (new : name ∉ w.met)
      (within : Visits next (next name) ⟨name :: w.met, w.listed⟩ between)
      (more : Visits next rest ⟨between.met, between.listed ++ [name]⟩ w') :
      Visits next (name :: rest) w w'

/-- There is one way to walk. -/
theorem Visits.unique {next : String → List String} {w first second : Walk}
    (h : Visits next references w first) (h' : Visits next references w second) :
    first = second := by
  induction h generalizing second with
  | done =>
    cases h'
    rfl
  | again met _ ih =>
    cases h' with
    | again _ more => exact ih more
    | fresh new _ _ => exact absurd met new
  | fresh new _ _ ihwithin ih =>
    cases h' with
    | again met _ => exact absurd met new
    | fresh _ within more =>
      obtain rfl := ihwithin within
      exact ih more

/-- **A run of resolving is such a walk.** At each point the walk has met what is
on the trail and what is listed. -/
theorem Extends.exists_visits {next : String → List String}
    (h : Extends library trail references members members')
    (hnext : ∀ name member, (name, member) ∈ members' → next name = member.references)
    {met : List String} (hmet : ∀ name, name ∈ met ↔ name ∈ trail ∨ name ∈ names members) :
    ∃ met', Visits next references ⟨met, names members⟩ ⟨met', names members'⟩ ∧
      ∀ name, name ∈ met' ↔ name ∈ trail ∨ name ∈ names members' := by
  induction h generalizing met with
  | done => exact ⟨met, .done, hmet⟩
  | @listed trail rest name members members' _ known _ ih =>
    obtain ⟨met', hvisits, hmet'⟩ := ih hnext hmet
    have hagain : name ∈ met := (hmet name).2 (.inr known)
    exact ⟨met', .again hagain hvisits, hmet'⟩
  | @fresh trail rest name member members between members' off new _ _ more ihwithin ih =>
    have hnew : name ∉ met := by
      rw [hmet, not_or]
      exact ⟨off, new⟩
    have hlisted := more.subset
    -- on the way in the name is met, and it is the innermost on the trail
    have hfirst : ∀ other, other ∈ name :: met ↔
        other ∈ trail ++ [name] ∨ other ∈ names members := by
      intro other
      rw [List.mem_cons, hmet, List.mem_append, List.mem_singleton]
      tauto
    obtain ⟨met₁, hwithin, hmet₁⟩ := ihwithin
      (fun other target htarget => hnext other target (hlisted (List.mem_append_left _ htarget)))
      hfirst
    -- on the way out it leaves the trail and is listed
    have hsecond : ∀ other, other ∈ met₁ ↔
        other ∈ trail ∨ other ∈ names (between ++ [(name, member)]) := by
      intro other
      rw [hmet₁, mem_names_concat, List.mem_append, List.mem_singleton]
      tauto
    obtain ⟨met₂, hmore, hmet₂⟩ := ih hnext hsecond
    have hreferences : next name = member.references :=
      hnext name member (hlisted (List.mem_append_right between List.mem_cons_self))
    rw [← hreferences] at hwithin
    rw [names_concat] at hmore
    exact ⟨met₂, .fresh hnew hwithin hmore, hmet₂⟩

/-- **The order of a graph is that of a walk in depth from its root.** -/
theorem visits_iff (h : resolve library root = .ok g) :
    (∃ met, Visits g.referencesFrom [g.root] ⟨[], []⟩ ⟨met, listed⟩) ↔ listed = g.order := by
  obtain ⟨hroot, hextends⟩ := extends_of_resolve h
  have hsettled := settled_of_resolve h
  have hnext : ∀ name member, (name, member) ∈ g.members →
      g.referencesFrom name = member.references := fun name member hmem =>
    referencesFrom_eq ((member?_eq_some_iff hsettled).2 hmem)
  have hmet : ∀ name, name ∈ ([] : List String) ↔ name ∈ ([] : List String) ∨ name ∈ names [] := by
    simp [names]
  obtain ⟨met, hvisits, -⟩ := hextends.exists_visits hnext hmet
  rw [← hroot] at hvisits
  constructor
  · rintro ⟨met', hother⟩
    exact congrArg Walk.listed (hother.unique hvisits)
  · rintro rfl
    exact ⟨met, hvisits⟩

/-! ## The order -/

/-- Names in an order in which data can be gathered. -/
structure Ordered (g : Graph) (order : List String) : Prop where
  /-- No name stands twice. -/
  nodup : order.Nodup
  /-- They are the names of the members. -/
  mem_iff : ∀ name, name ∈ order ↔ ∃ member, g.member? name = some member
  /-- What a name refers to stands before it. -/
  before : ∀ name, ∀ other ∈ g.referencesFrom name, order.idxOf other < order.idxOf name
  /-- The root stands last. -/
  last : order.getLast? = some g.root

/-- **The members of a graph are in order.** -/
theorem ordered_of_resolve (h : resolve library root = .ok g) : Ordered g g.order where
  nodup := (settled_of_resolve h).nodup
  mem_iff _ := mem_order_iff_member?
  before name other hother := by
    obtain ⟨member, hmember, hreferred⟩ := mem_referencesFrom_iff.1 hother
    exact (settled_of_resolve h).idxOf_lt (Keyed.mem_of_get? hmember) hreferred
  last := by
    obtain ⟨hroot, hextends⟩ := extends_of_resolve h
    cases hextends with
    | listed _ known _ => cases known
    | @fresh _ _ _ member _ between _ _ _ _ _ more =>
      generalize hmembers : g.members = members at more
      cases more
      rw [order, hmembers, List.map_append, hroot]
      exact List.getLast?_concat

/-- A page with cards in a loop, inside of a frame; cards and frame share an icon. -/
def gallery : Collection where
  documents :=
    [("card", "{{> icon}}"), ("frame", "{{> icon}}{{{content}}}"), ("icon", "*"),
      ("page", "<data layout='frame'></data><template>" ++
        "\x7b\x7b#each cards\x7d\x7d{{> card}}\x7b\x7b/each\x7d\x7d</template>")]

/-- The icon is listed once, before both that include it. -/
theorem exists_graph_gallery :
    ∃ g, resolve gallery.library "page" = .ok g ∧ g.order = ["icon", "card", "frame", "page"] := by
  have horder : (resolve gallery.library "page").map order =
      .ok ["icon", "card", "frame", "page"] := by decide +kernel
  exact Except.map_eq_ok_iff.1 horder

end Graph

end Trellis
