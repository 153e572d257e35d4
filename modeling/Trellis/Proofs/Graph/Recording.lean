import Trellis.Graph.Fingerprint
import Trellis.Proofs.Graph.Order
import Trellis.Proofs.Json.Order
/-!
# Graph — recording before resolving

A member is listed when all that it refers to is listed. One may as well record a
component and its source as soon as they are loaded, and its references when they are
resolved (`record`). Then a name that is still being resolved is among the recorded
ones, but it stands on the trail, and the trail is asked first. So at each point what
is recorded is what is listed and what is on the trail (`Records`), and both ways end
alike (`alike_record`): with the same error, or with the same components, sources,
references and order (`composed_of_resolve`).
-/

namespace Trellis

namespace Graph

variable {library : Library} {g : Graph} {root name other : String} {member : Member}
  {opened members : List (String × Member)} {listed : List String} {steps : Nat}

/-! ## Recording -/

/-- What is known of names while a root is being resolved. -/
structure Record where
  /-- The components that were loaded. -/
  components : Keyed Component := []
  /-- Their sources. -/
  sources : Keyed String := []
  /-- What those refer to that are resolved. -/
  references : Keyed (List String) := []

namespace Record

/-- Records what was loaded under a name. -/
def load (r : Record) (name : String) (member : Member) : Record :=
  { r with
    components := r.components.insert name member.component
    sources := r.sources.insert name member.source }

/-- Records what a name refers to. -/
def settle (r : Record) (name : String) (references : List String) : Record :=
  { r with references := r.references.insert name references }

/-- What a name refers to, as far as that is recorded. -/
def referencesFrom (r : Record) (name : String) : List String :=
  (r.references.get? name).getD []

end Record

/-- **Resolves a name, recording it before what it refers to.** -/
def record (library : Library) : Nat → List String → Record → String → Except Failure Record
  | 0, trail, _, name => .error (.circular (trail ++ [name]))
  | steps + 1, trail, r, name =>
    if trail.contains name then .error (.circular (trail ++ [name]))
    else if r.components.contains name then .ok r
    else do
      let member ← Member.load library name
      let r ← member.references.foldlM (record library steps (trail ++ [name])) (r.load name member)
      return r.settle name member.references

/-! ## What is recorded -/

/-- **That a record agrees with the members** listed so far and with those that are being
resolved: it has the components and the sources of both, and the references of the former. -/
structure Records (opened members : List (String × Member)) (r : Record) : Prop where
  components : ∀ name,
    r.components.get? name = (Keyed.get? (opened ++ members) name).map Member.component
  sources : ∀ name, r.sources.get? name = (Keyed.get? (opened ++ members) name).map Member.source
  references : ∀ name,
    r.references.get? name = (Keyed.get? members name).map Member.references
  /-- The sources stand in the order of their names. -/
  sorted : Keyed.Sorted r.sources
  /-- What is being resolved is not listed. -/
  apart : ∀ name ∈ names opened, name ∉ names members

/-- What is written under the name of a new entry is found wherever the entry stands. -/
theorem get?_insert_of_fresh {α : Type} {f : Member → α} {m : Keyed α}
    {first second : List (String × Member)} (hfresh : name ∉ names first)
    (h : ∀ other, m.get? other = (Keyed.get? (first ++ second) other).map f) (other : String) :
    (m.insert name (f member)).get? other =
      (Keyed.get? (first ++ (name, member) :: second) other).map f := by
  rw [Keyed.get?_append_cons hfresh, Keyed.get?_insert, h]
  split
  · rfl
  · rfl

namespace Records

variable {r : Record}

theorem start : Records [] [] {} where
  components _ := rfl
  sources _ := rfl
  references _ := rfl
  sorted := Keyed.sorted_nil
  apart _ hname := absurd hname List.not_mem_nil

/-- A name off the trail is recorded if it is listed. -/
theorem contains_iff (h : Records opened members r) (hoff : name ∉ names opened) :
    r.components.contains name = true ↔ name ∈ names members := by
  rw [Keyed.contains, h.components, Keyed.get?_append, Keyed.get?_eq_none_iff.2 hoff,
    Option.none_or, Option.isSome_map, Option.isSome_iff_exists]
  exact Keyed.mem_keys_iff.symm

/-- **On the way in** a name is recorded, and it is the innermost on the trail. -/
theorem load (h : Records opened members r) (hoff : name ∉ names opened)
    (hnew : name ∉ names members) :
    Records (opened ++ [(name, member)]) members (r.load name member) where
  components other := by
    rw [List.append_assoc]
    exact get?_insert_of_fresh hoff h.components other
  sources other := by
    rw [List.append_assoc]
    exact get?_insert_of_fresh hoff h.sources other
  references := h.references
  sorted := h.sorted.insert name member.source
  apart other hother := by
    rcases mem_names_concat.1 hother with hother | rfl
    · exact h.apart other hother
    · exact hnew

/-- **On the way out** a name leaves the trail and is listed, and its references are
recorded. -/
theorem settle (h : Records (opened ++ [(name, member)]) members r)
    (hoff : name ∉ names opened) :
    Records opened (members ++ [(name, member)]) (r.settle name member.references) := by
  have hnew : name ∉ names members := h.apart name (mem_names_concat.2 (.inr rfl))
  have hboth : name ∉ Keyed.keys (opened ++ members) := by
    rw [Keyed.keys, List.map_append, List.mem_append, not_or]
    exact ⟨hoff, hnew⟩
  -- the entry is found wherever it stands
  have hmoved : ∀ other, Keyed.get? (opened ++ [(name, member)] ++ members) other =
      Keyed.get? (opened ++ (members ++ [(name, member)])) other := by
    intro other
    rw [List.append_assoc, List.singleton_append, Keyed.get?_append_cons hoff,
      ← List.append_assoc, Keyed.get?_append_cons hboth, List.append_nil]
  refine ⟨fun other => ?_, fun other => ?_, fun other => ?_, h.sorted, fun other hother => ?_⟩
  · rw [← hmoved]
    exact h.components other
  · rw [← hmoved]
    exact h.sources other
  · exact get?_insert_of_fresh hnew (by simpa using h.references) other
  · rw [mem_names_concat, not_or]
    refine ⟨h.apart other (mem_names_concat.2 (.inl hother)), ?_⟩
    rintro rfl
    exact hoff hother

end Records

/-- **Recording first makes no difference**, whatever steps are allowed and whatever was
listed and recorded before. -/
theorem alike_record {r : Record} (h : Records opened members r) :
    Except.Alike (Records opened) (extend library steps (names opened) members name)
      (record library steps (names opened) r name) := by
  induction steps generalizing opened members r name with
  | zero => exact .error _
  | succ steps ih =>
    rw [extend, record]
    by_cases hon : name ∈ names opened
    · have htrail : (names opened).contains name = true := by simpa using hon
      rw [if_pos htrail, if_pos htrail]
      exact .error _
    have htrail : ¬ (names opened).contains name = true := by simpa using hon
    rw [if_neg htrail, if_neg htrail]
    by_cases hlisted : name ∈ names members
    · rw [if_pos (any_fst_iff.2 hlisted), if_pos ((h.contains_iff hon).2 hlisted)]
      exact .ok h
    rw [if_neg (mt any_fst_iff.1 hlisted), if_neg (mt (h.contains_iff hon).1 hlisted)]
    cases Member.load library name with
    | error e => exact .error e
    | ok member =>
      -- while its references are resolved, the name is on the trail
      have hopened : names opened ++ [name] = names (opened ++ [(name, member)]) :=
        (names_concat opened name member).symm
      have hfold : Except.Alike (Records (opened ++ [(name, member)]))
          (member.references.foldlM (extend library steps (names opened ++ [name])) members)
          (member.references.foldlM (record library steps (names opened ++ [name]))
            (r.load name member)) := by
        rw [hopened]
        exact Except.Alike.foldlM (h.load hon hlisted) fun _ _ _ _ => ih
      exact hfold.bind fun _ _ hrecords => .ok (hrecords.settle hon)

/-! ## Whole graphs -/

/-- **What is recorded of a root.** -/
def composed (library : Library) (root : String) : Except Failure Record :=
  record library (library.breadth + 1) [] {} root

/-- That a record is that of a graph. -/
structure Composes (r : Record) (g : Graph) : Prop where
  /-- The components are those of the members. -/
  components : ∀ name, r.components.get? name = (g.member? name).map Member.component
  /-- The sources are those that the fingerprint is taken of. -/
  sources : r.sources = g.sources
  /-- The references are those of the members. -/
  references : ∀ name, r.references.get? name = (g.member? name).map Member.references
  /-- The walk in depth through the references lists the members. -/
  order : ∀ listed, (∃ met, Visits r.referencesFrom [g.root] ⟨[], []⟩ ⟨met, listed⟩) ↔
    listed = g.order

/-- **A root fails as it does when names are recorded first, and its graph is what is
recorded.** -/
theorem composed_of_resolve (library : Library) (root : String) :
    (∀ e, composed library root = .error e ↔ resolve library root = .error e) ∧
      ∀ g, resolve library root = .ok g → ∃ r, composed library root = .ok r ∧ Composes r g := by
  have halike : Except.Alike (Records []) (extend library (library.breadth + 1) [] [] root)
      (composed library root) := alike_record .start
  refine ⟨fun e => ?_, fun g hg => ?_⟩
  · rw [← halike.error_iff]
    constructor
    · intro h
      exact Except.bind_eq_error_iff.2 (.inl h)
    · intro h
      rcases Except.bind_eq_error_iff.1 h with hextend | ⟨members, -, hmade⟩
      · exact hextend
      · cases hmade
  · have hsettled := settled_of_resolve hg
    have hvisits (listed : List String) :
        (∃ met, Visits g.referencesFrom [g.root] ⟨[], []⟩ ⟨met, listed⟩) ↔ listed = g.order :=
      visits_iff hg
    obtain ⟨members, hextend, hmade⟩ := Except.bind_eq_ok_iff.1 hg
    obtain rfl := Except.ok.inj hmade
    obtain ⟨r, hr, hrecords⟩ := halike.exists_of_ok hextend
    refine ⟨r, hr, hrecords.components, ?_, hrecords.references, ?_⟩
    · refine hrecords.sorted.ext (Keyed.sorted_ofList _) fun name => ?_
      rw [hrecords.sources, sources, Keyed.get?_ofList, Keyed.get?_map, List.nil_append]
      rw [Keyed.keys, List.map_map]
      exact hsettled.nodup
    · have hnext : r.referencesFrom = Graph.referencesFrom ⟨root, members⟩ := by
        funext name
        rw [Record.referencesFrom, hrecords.references]
        rfl
      rw [hnext]
      exact hvisits

/-- A name that is met again while it is resolved closes a circle, recorded as it is. -/
example : Except.error? (composed
    (Collection.library { documents := [("card", "{{> page}}"), ("page", "{{> card}}")] }) "page") =
      some (.circular ["page", "card", "page"]) := by
  decide +kernel

end Graph

end Trellis
