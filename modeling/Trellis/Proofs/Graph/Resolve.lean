import Mathlib.Logic.Relation
import Trellis.Proofs.Graph.Breadth
/-!
# Graph — what has a graph

Resolving follows references in depth: a run of it (`Extends`) takes names one
after another, each behind what it refers to. What it lists is settled: behind
each name stand only names that nothing listed before refers to, so no reference
leads back (`Settled.acyclic`). Conversely a root from which everything loads
and nothing leads back is resolved, since the trail never meets a name twice
and cannot grow longer than the library is broad (`exists_extend`). Together:
exactly those roots have a graph, and it holds exactly what they reach
(`resolve_iff`).
-/

namespace Trellis

namespace Graph

open Relation

variable {library : Library} {root name other : String} {member : Member}
  {members members' : List (String × Member)} {trail references : List String} {steps : Nat}

/-- The names that have members. -/
def names (members : List (String × Member)) : List String :=
  members.map Prod.fst

/-- Following references any number of times. -/
abbrev Reaches (library : Library) : String → String → Prop :=
  ReflTransGen (Refers library)

/-! ## What is listed -/

/-- Members in an order in which each stands behind all that it refers to. -/
inductive Settled (library : Library) : List (String × Member) → Prop where
  | nil : Settled library []
  | concat {members : List (String × Member)} {name : String} {member : Member}
      (settled : Settled library members) (fresh : name ∉ names members)
      (loaded : Member.load library name = .ok member)
      (closed : ∀ other ∈ member.references, other ∈ names members) :
      Settled library (members ++ [(name, member)])

theorem names_concat (members : List (String × Member)) (name : String) (member : Member) :
    names (members ++ [(name, member)]) = names members ++ [name] := by
  rw [names, List.map_append]
  rfl

theorem mem_names_concat :
    other ∈ names (members ++ [(name, member)]) ↔ other ∈ names members ∨ other = name := by
  rw [names_concat, List.mem_append, List.mem_singleton]

theorem any_fst_iff : members.any (·.1 == name) = true ↔ name ∈ names members := by
  rw [List.any_eq_true, names, List.mem_map]
  simp only [beq_iff_eq]

namespace Settled

/-- No name is listed twice. -/
theorem nodup (h : Settled library members) : (names members).Nodup := by
  induction h with
  | nil => exact List.nodup_nil
  | concat _ hfresh _ _ ih =>
    rw [names_concat, ← List.concat_eq_append]
    exact ih.concat hfresh

/-- Each member is the one that its name loads. -/
theorem load (h : Settled library members) (hmem : (name, member) ∈ members) :
    Member.load library name = .ok member := by
  induction h with
  | nil => cases hmem
  | concat _ _ hloaded _ ih =>
    rcases List.mem_append.1 hmem with hmem | hmem
    · exact ih hmem
    · obtain ⟨rfl, rfl⟩ := Prod.mk.inj (List.mem_singleton.1 hmem)
      exact hloaded

/-- **References lead from the list into the list.** -/
theorem mem_of_refers (h : Settled library members) (hname : name ∈ names members)
    (hrefers : Refers library name other) : other ∈ names members := by
  induction h with
  | nil => cases hname
  | concat _ _ hloaded hclosed ih =>
    rw [mem_names_concat] at hname ⊢
    rcases hname with hname | rfl
    · exact .inl (ih hname)
    · exact .inl (hclosed _ ((refers_iff hloaded).1 hrefers))

theorem mem_of_reaches (h : Settled library members) (hname : name ∈ names members)
    (hreaches : Reaches library name other) : other ∈ names members := by
  induction hreaches with
  | refl => exact hname
  | tail _ hrefers ih => exact h.mem_of_refers ih hrefers

/-- **No reference leads back.** -/
theorem acyclic (h : Settled library members) (hname : name ∈ names members) :
    ¬ TransGen (Refers library) name name := by
  induction h with
  | nil => cases hname
  | concat hsettled hfresh hloaded hclosed ih =>
    rcases mem_names_concat.1 hname with hname | rfl
    · exact ih hname
    · -- the first step leads to an earlier name, and from there none leads out
      intro hcycle
      obtain ⟨first, hfirst, hback⟩ := TransGen.head'_iff.1 hcycle
      have hearlier := hclosed first ((refers_iff hloaded).1 hfirst)
      exact hfresh (hsettled.mem_of_reaches hearlier hback)

end Settled

/-! ## What resolving does -/

/-- A run of resolving: names one after another, none of them on the trail, each
either listed by then or loaded and listed behind what it refers to. -/
inductive Extends (library : Library) : List String → List String →
    List (String × Member) → List (String × Member) → Prop where
  | done {trail : List String} {members : List (String × Member)} :
      Extends library trail [] members members
  | listed {trail rest : List String} {name : String} {members members' : List (String × Member)}
      (off : name ∉ trail) (known : name ∈ names members)
      (more : Extends library trail rest members members') :
      Extends library trail (name :: rest) members members'
  | fresh {trail rest : List String} {name : String} {member : Member}
      {members between members' : List (String × Member)}
      (off : name ∉ trail) (new : name ∉ names members)
      (loaded : Member.load library name = .ok member)
      (within : Extends library (trail ++ [name]) member.references members between)
      (more : Extends library trail rest (between ++ [(name, member)]) members') :
      Extends library trail (name :: rest) members members'

/-- Runs of single names make a run. -/
theorem Extends.cons {between : List (String × Member)}
    (hfirst : Extends library trail [name] members between)
    (hmore : Extends library trail references between members') :
    Extends library trail (name :: references) members members' := by
  cases hfirst with
  | listed off known last =>
    cases last
    exact .listed off known hmore
  | fresh off new loaded within last =>
    cases last
    exact .fresh off new loaded within hmore

theorem extends_of_foldlM
    (hextend : ∀ name members members', extend library steps trail members name = .ok members' →
      Extends library trail [name] members members')
    (h : references.foldlM (extend library steps trail) members = .ok members') :
    Extends library trail references members members' := by
  induction references generalizing members with
  | nil =>
    obtain rfl := Except.ok.inj h
    exact .done
  | cons first references ih =>
    rw [List.foldlM_cons] at h
    obtain ⟨between, hfirst, hrest⟩ := Except.bind_eq_ok_iff.1 h
    exact (hextend first members between hfirst).cons (ih hrest)

/-- **Resolving a name is a run**, whatever steps were allowed. -/
theorem extends_of_extend (h : extend library steps trail members name = .ok members') :
    Extends library trail [name] members members' := by
  induction steps generalizing trail members members' name with
  | zero => cases h
  | succ steps ih =>
    rw [extend] at h
    split at h
    · cases h
    · next htrail =>
      have hnot : name ∉ trail := by simpa using htrail
      split at h
      · next hlisted =>
        obtain rfl := Except.ok.inj h
        exact .listed hnot (any_fst_iff.1 hlisted) .done
      · next hlisted =>
        have hfresh : name ∉ names members := fun hmem => hlisted (any_fst_iff.2 hmem)
        obtain ⟨member, hload, hrest⟩ := Except.bind_eq_ok_iff.1 h
        obtain ⟨between, hfold, hlast⟩ := Except.bind_eq_ok_iff.1 hrest
        obtain rfl := Except.ok.inj hlast
        exact .fresh hnot hfresh hload (extends_of_foldlM (fun _ _ _ => ih) hfold) .done

/-- No member is lost. -/
theorem Extends.subset (h : Extends library trail references members members') :
    members ⊆ members' := by
  induction h with
  | done => exact fun _ hentry => hentry
  | listed _ _ _ ih => exact ih
  | fresh _ _ _ _ _ ihwithin ih =>
    exact fun entry hentry => ih (List.mem_append_left _ (ihwithin hentry))

/-! ## What resolving adds -/

/-- What some names add to members: they and what they reach, and nothing that
is still being resolved. -/
structure Adds (library : Library) (trail sources : List String)
    (members members' : List (String × Member)) : Prop where
  /-- The members stay settled. -/
  settled : Settled library members'
  /-- The names are there. -/
  found : ∀ name ∈ sources, name ∈ names members'
  /-- What is new is reached. -/
  reached : ∀ name ∈ names members', name ∈ names members ∨
    ∃ source ∈ sources, Reaches library source name
  /-- Nothing on the trail is listed. -/
  apart : ∀ name ∈ trail, name ∉ names members'

/-- **A name is added behind all that it refers to.** -/
theorem Adds.concat (hadds : Adds library (trail ++ [name]) member.references members members')
    (htrail : name ∉ trail) (hload : Member.load library name = .ok member) :
    Adds library trail [name] members (members' ++ [(name, member)]) := by
  have hfresh : name ∉ names members' := hadds.apart name (by simp)
  refine ⟨.concat hadds.settled hfresh hload hadds.found, fun other hother => ?_,
    fun other hother => ?_, fun t ht => ?_⟩
  · exact mem_names_concat.2 (.inr (List.mem_singleton.1 hother))
  · rcases mem_names_concat.1 hother with hother | rfl
    · rcases hadds.reached other hother with hold | ⟨source, hsource, hreaches⟩
      · exact .inl hold
      · have hstep : Refers library name source := (refers_iff hload).2 hsource
        exact .inr ⟨name, List.mem_cons_self, hreaches.head hstep⟩
    · exact .inr ⟨other, List.mem_cons_self, .refl⟩
  · rw [mem_names_concat, not_or]
    refine ⟨hadds.apart t (List.mem_append_left [name] ht), ?_⟩
    rintro rfl
    exact htrail ht

/-- A name and others behind it add what each of them adds. -/
theorem Adds.cons {between : List (String × Member)}
    (hfirst : Adds library trail [name] members between)
    (hmore : Adds library trail references between members') (hkept : between ⊆ members') :
    Adds library trail (name :: references) members members' where
  settled := hmore.settled
  found := by
    have hname := hfirst.found name List.mem_cons_self
    exact List.forall_mem_cons.2 ⟨List.map_subset Prod.fst hkept hname, hmore.found⟩
  reached other hother := by
    rcases hmore.reached other hother with hbetween | ⟨source, hsource, hreaches⟩
    · rcases hfirst.reached other hbetween with hold | ⟨source, hsource, hreaches⟩
      · exact .inl hold
      · rw [List.mem_singleton.1 hsource] at hreaches
        exact .inr ⟨name, List.mem_cons_self, hreaches⟩
    · exact .inr ⟨source, List.mem_cons_of_mem name hsource, hreaches⟩
  apart := hmore.apart

/-- **A run adds its names and what they reach.** -/
theorem Extends.adds (h : Extends library trail references members members')
    (hsettled : Settled library members) (hapart : ∀ t ∈ trail, t ∉ names members) :
    Adds library trail references members members' := by
  induction h with
  | done =>
    exact ⟨hsettled, List.forall_mem_nil _, fun _ hname => .inl hname, hapart⟩
  | @listed trail rest name members members' off known more ih =>
    have hfirst : Adds library trail [name] members members :=
      ⟨hsettled, List.forall_mem_singleton.2 known, fun _ hname => .inl hname, hapart⟩
    exact hfirst.cons (ih hsettled hapart) more.subset
  | @fresh trail rest name member members between members' off new loaded within more ihwithin ih =>
    -- while the name is being resolved it is on the trail and not listed
    have hapart' : ∀ t ∈ trail ++ [name], t ∉ names members := by
      intro t ht
      rcases List.mem_append.1 ht with ht | ht
      · exact hapart t ht
      · exact List.mem_singleton.1 ht ▸ new
    have hfirst := (ihwithin hsettled hapart').concat off loaded
    exact hfirst.cons (ih hfirst.settled hfirst.apart) more.subset

/-! ## What can be resolved -/

/-- That everything a name reaches loads, and that no reference leads back. -/
structure Resolvable (library : Library) (name : String) : Prop where
  /-- Everything loads. -/
  loads : ∀ other, Reaches library name other → Loads library other
  /-- Nothing leads back. -/
  acyclic : ∀ other, Reaches library name other → ¬ TransGen (Refers library) other other

/-- What a resolvable name refers to is resolvable. -/
theorem Resolvable.of_refers (h : Resolvable library name) (hrefers : Refers library name other) :
    Resolvable library other where
  loads last hreaches := h.loads last (hreaches.head hrefers)
  acyclic last hreaches := h.acyclic last (hreaches.head hrefers)

/-- **A resolvable name is resolved.** The trail leads to the name over different
names with sources, none of which the name reaches; so it never gets longer than
the library is broad, and the steps suffice. -/
theorem exists_extend (hbounded : library.Bounded)
    (hsteps : library.breadth < steps + trail.length) (hnodup : trail.Nodup)
    (hchain : (trail ++ [name]).IsChain (Refers library))
    (htrail : ∀ t ∈ trail, Loads library t ∧ ¬ Reaches library name t)
    (h : Resolvable library name) (members : List (String × Member)) :
    ∃ members', extend library steps trail members name = .ok members' := by
  induction steps generalizing trail name members with
  | zero =>
    -- without steps the trail would be longer than the library is broad
    have hlength : trail.length ≤ library.breadth :=
      hbounded trail hchain.left_of_append hnodup fun t ht => (htrail t ht).1
    omega
  | succ steps ih =>
    have hnot : name ∉ trail := fun hmem => (htrail name hmem).2 .refl
    obtain ⟨member, hload⟩ := loads_iff.1 (h.loads name .refl)
    -- what the name refers to is resolvable, and reaches nothing on the longer trail
    have hfold : ∃ members', member.references.foldlM
        (extend library steps (trail ++ [name])) members = .ok members' := by
      refine Except.exists_foldlM (fun other hother => ?_) members
      have hrefers : Refers library name other := (refers_iff hload).2 hother
      refine ih ?_ ?_ ?_ (fun t ht => ?_) (h.of_refers hrefers)
      · rw [List.length_append, List.length_singleton]
        omega
      · rw [← List.concat_eq_append]
        exact hnodup.concat hnot
      · refine hchain.append (List.isChain_singleton other) fun last hlast next hnext => ?_
        obtain rfl : name = last := by simpa using hlast
        obtain rfl : other = next := by simpa using hnext
        exact hrefers
      · rcases List.mem_append.1 ht with ht | ht
        · exact ⟨(htrail t ht).1, fun hreaches => (htrail t ht).2 (hreaches.head hrefers)⟩
        · -- a way back to the name itself would be a circle
          rw [List.mem_singleton.1 ht]
          exact ⟨h.loads name .refl, fun hback => h.acyclic name .refl (TransGen.head' hrefers hback)⟩
    obtain ⟨between, hbetween⟩ := hfold
    rw [extend, if_neg (by simpa using hnot)]
    split
    · exact ⟨members, rfl⟩
    · exact ⟨between ++ [(name, member)], Except.bind_eq_ok_iff.2
        ⟨member, hload, Except.bind_eq_ok_iff.2 ⟨between, hbetween, rfl⟩⟩⟩

/-! ## Graphs -/

/-- A graph is what a run leaves that resolves its root. -/
theorem extends_of_resolve {g : Graph} (h : resolve library root = .ok g) :
    g.root = root ∧ Extends library [] [root] [] g.members := by
  obtain ⟨members, hextend, hmade⟩ := Except.bind_eq_ok_iff.1 h
  obtain rfl := Except.ok.inj hmade
  exact ⟨rfl, extends_of_extend hextend⟩

/-- What a graph of a root is made of. -/
theorem adds_of_resolve {g : Graph} (h : resolve library root = .ok g) :
    g.root = root ∧ Adds library [] [root] [] g.members := by
  obtain ⟨hroot, hextends⟩ := extends_of_resolve h
  exact ⟨hroot, hextends.adds .nil fun t ht => absurd ht List.not_mem_nil⟩

/-- **The members of a graph are what its root reaches.** -/
theorem mem_order_iff {g : Graph} (h : resolve library root = .ok g) :
    name ∈ g.order ↔ Reaches library root name := by
  obtain ⟨-, hadds⟩ := adds_of_resolve h
  constructor
  · intro hname
    rcases hadds.reached name hname with hold | ⟨source, hsource, hreaches⟩
    · exact absurd hold List.not_mem_nil
    · rwa [List.mem_singleton.1 hsource] at hreaches
  · exact hadds.settled.mem_of_reaches (hadds.found root List.mem_cons_self)

/-- **Exactly the complete roots without circles have a graph.** A root has one
if and only if everything it reaches loads and no reference leads back; and then
the members are what it reaches, each once, with its source, its component and
what it refers to. -/
theorem resolve_iff (hbounded : library.Bounded) (root : String) :
    ((∃ g, resolve library root = .ok g) ↔
      (∀ name, Reaches library root name → Loads library name) ∧
        ∀ name, Reaches library root name → ¬ TransGen (Refers library) name name) ∧
      ∀ g, resolve library root = .ok g →
        g.root = root ∧ g.order.Nodup ∧
          (∀ name, name ∈ g.order ↔ Reaches library root name) ∧
          ∀ name member, (name, member) ∈ g.members →
            library.fetch name = .ok (some member.source) ∧
              Component.ofSource member.source = .ok member.component ∧
              member.references = referencesOf member.component member.source := by
  refine ⟨⟨?_, ?_⟩, fun g hg => ?_⟩
  · rintro ⟨g, hg⟩
    obtain ⟨-, hadds⟩ := adds_of_resolve hg
    refine ⟨fun name hreaches => ?_, fun name hreaches => ?_⟩
    · obtain ⟨⟨_, member⟩, hmember, rfl⟩ := List.mem_map.1 ((mem_order_iff hg).2 hreaches)
      exact loads_iff.2 ⟨member, hadds.settled.load hmember⟩
    · exact hadds.settled.acyclic ((mem_order_iff hg).2 hreaches)
  · rintro ⟨hloads, hacyclic⟩
    have hsteps : library.breadth < library.breadth + 1 + ([] : List String).length :=
      Nat.lt_succ_self library.breadth
    obtain ⟨members, hmembers⟩ := exists_extend hbounded hsteps List.nodup_nil
      (List.isChain_singleton root) (fun t ht => absurd ht List.not_mem_nil) ⟨hloads, hacyclic⟩ []
    exact ⟨⟨root, members⟩, Except.bind_eq_ok_iff.2 ⟨members, hmembers, rfl⟩⟩
  · obtain ⟨hroot, hadds⟩ := adds_of_resolve hg
    exact ⟨hroot, hadds.settled.nodup, fun name => mem_order_iff hg,
      fun name member hmember => load_eq_ok_iff.1 (hadds.settled.load hmember)⟩

/-- A source that two others share, one of which is a partial and a layout. -/
def sharedIcon : Collection where
  documents :=
    [("card", "{{> icon}}"), ("frame", "{{> icon}}"), ("icon", "*"),
      ("page", "<data layout='frame'></data><template>{{> card}}{{> frame}}</template>")]

/-- Sharing is no circle. -/
theorem resolve_iff_sharedIcon :
    (∀ name, Reaches sharedIcon.library "page" name → Loads sharedIcon.library name) ∧
      ∀ name, Reaches sharedIcon.library "page" name →
        ¬ TransGen (Refers sharedIcon.library) name name := by
  have hok : (resolve sharedIcon.library "page").isOk = true := by decide +kernel
  have hgraph : ∃ g, resolve sharedIcon.library "page" = .ok g := by
    cases hresolve : resolve sharedIcon.library "page" with
    | error e => simp [hresolve, Except.isOk, Except.toBool] at hok
    | ok g => exact ⟨g, rfl⟩
  exact (resolve_iff (Collection.bounded_library sharedIcon) "page").1.1 hgraph

end Graph

end Trellis
