import Trellis.Proofs.Graph.Resolve
/-!
# Graph — what a failure names

While a name is being resolved the trail leads to it from the root, over different
names that load and each of which refers to the next (`LeadsTo`). Whatever was
resolved before, this is so for each name that is tried (`LeadsTo.concat`). So
a failure names what is wrong with the root: a name that is met again closes the
trail to a circle, and a name that does not load is reached (`culprit_of_resolve`).
-/

namespace Trellis

namespace Graph

open Relation

variable {library : Library} {root name other source : String} {member : Member}
  {members : List (String × Member)} {trail chain : List String} {steps : Nat} {e : Failure}

/-! ## Trails -/

/-- **That a trail leads from a root to a name**: over different names that load,
each of which refers to the next. -/
structure LeadsTo (library : Library) (root : String) (trail : List String) (name : String) :
    Prop where
  /-- It starts at the root. -/
  starts : (trail ++ [name]).head? = some root
  /-- Each name refers to the next, and the last of the trail to the name. -/
  linked : (trail ++ [name]).IsChain (Refers library)
  /-- No name of the trail comes twice. -/
  distinct : trail.Nodup
  /-- The names of the trail load. -/
  loads : ∀ t ∈ trail, Loads library t

namespace LeadsTo

theorem start (library : Library) (root : String) : LeadsTo library root [] root :=
  ⟨rfl, List.isChain_singleton root, List.nodup_nil, List.forall_mem_nil _⟩

/-- **A trail goes on** to what the name at its end refers to. -/
theorem concat (h : LeadsTo library root trail name) (hoff : name ∉ trail)
    (hload : Member.load library name = .ok member) (hother : other ∈ member.references) :
    LeadsTo library root (trail ++ [name]) other where
  starts := by
    rw [List.head?_append, h.starts]
    rfl
  linked := by
    refine h.linked.append (List.isChain_singleton other) fun last hlast next hnext => ?_
    obtain rfl : name = last := by simpa using hlast
    obtain rfl : other = next := by simpa using hnext
    exact (refers_iff hload).2 hother
  distinct := by
    rw [← List.concat_eq_append]
    exact h.distinct.concat hoff
  loads := List.forall_mem_append.2
    ⟨h.loads, List.forall_mem_singleton.2 (loads_iff.2 ⟨member, hload⟩)⟩

/-- What a trail leads to is reached. -/
theorem reaches (h : LeadsTo library root trail name) : Reaches library root name := by
  have hne : trail ++ [name] ≠ [] := by simp
  have hway := List.relationReflTransGen_of_exists_isChain _ h.linked hne
  rwa [List.getLast_append_singleton, (List.head_eq_iff_head?_eq_some hne).2 h.starts] at hway

/-- **A trail of a library that keeps what it says is no longer than that.** -/
theorem length_le (h : LeadsTo library root trail name) (hbounded : library.Bounded) :
    trail.length ≤ library.breadth :=
  hbounded trail h.linked.left_of_append h.distinct h.loads

end LeadsTo

/-! ## What is wrong -/

/-- **That names are a circle that a root leads into.** -/
structure Circle (library : Library) (root : String) (chain : List String) : Prop where
  /-- They start with the root. -/
  starts : chain.head? = some root
  /-- Each refers to the next. -/
  linked : chain.IsChain (Refers library)
  /-- Before the last, no name comes twice. -/
  distinct : chain.dropLast.Nodup
  /-- The last is one of those before it. -/
  closes : ∃ again, chain.getLast? = some again ∧ chain.dropLast.count again = 1

/-- **That a failure to resolve a root names what is wrong with it.** -/
inductive Blames (library : Library) (root : String) : Failure → Prop where
  /-- The names of a circle. -/
  | circle {chain : List String} (circle : Circle library root chain) :
      Blames library root (.circular chain)
  /-- A name that is reached and has no source. -/
  | missing {name : String} (reached : Reaches library root name)
      (fetched : library.fetch name = .ok none) :
      Blames library root (.templateNotFound name none)
  /-- A name that is reached and fails, with what it fails with. -/
  | failing {name : String} {cause : Failure} (reached : Reaches library root name)
      (fetched : library.fetch name = .error cause) :
      Blames library root (.templateNotFound name (some cause.message))
  /-- The fault of a source that is reached. -/
  | malformed {name source : String} {cause : SourceError} (reached : Reaches library root name)
      (fetched : library.fetch name = .ok (some source))
      (faulty : Component.ofSource source = .error cause) : Blames library root (.source cause)

/-- **A trail that comes back to one of its names** ends in a circle. -/
theorem LeadsTo.circle (h : LeadsTo library root trail name) (hon : name ∈ trail) :
    Circle library root (trail ++ [name]) where
  starts := h.starts
  linked := h.linked
  distinct := by
    rw [List.dropLast_concat]
    exact h.distinct
  closes := by
    refine ⟨name, List.getLast?_concat, ?_⟩
    rw [List.dropLast_concat]
    exact List.count_eq_one_of_mem h.distinct hon

/-- **A name that does not load is to blame.** A source that has a component comes
with its references, so there is no other fault. -/
theorem blames_of_load (hreached : Reaches library root name)
    (h : Member.load library name = .error e) : Blames library root e := by
  unfold Member.load at h
  split at h
  · next cause hfetch =>
    obtain rfl := Except.error.inj h
    exact .failing hreached hfetch
  · next hfetch =>
    obtain rfl := Except.error.inj h
    exact .missing hreached hfetch
  · next source hfetch =>
    obtain ⟨cause, hmade, rfl⟩ := Except.mapError_eq_error_iff.1 h
    cases hcomponent : Component.ofSource source with
    | ok component =>
      rw [ofSource_eq hcomponent] at hmade
      cases hmade
    | error cause' =>
      have hfirst : Member.ofSource source = .error cause' :=
        Except.bind_eq_error_iff.2 (.inl hcomponent)
      obtain rfl := Except.error.inj (hmade.symm.trans hfirst)
      exact .malformed hreached hfetch hcomponent

/-! ## What fails -/

/-- **A name that cannot be resolved** leads to what is to blame, or to a trail for
which there are no steps left. -/
theorem blames_of_extend (hway : LeadsTo library root trail name)
    (h : extend library steps trail members name = .error e) :
    Blames library root e ∨
      ∃ trail' last, e = .circular (trail' ++ [last]) ∧ LeadsTo library root trail' last ∧
        trail'.length = steps + trail.length := by
  induction steps generalizing trail members name with
  | zero =>
    obtain rfl := Except.error.inj h
    exact .inr ⟨trail, name, rfl, hway, (Nat.zero_add _).symm⟩
  | succ steps ih =>
    rw [extend] at h
    split at h
    · next hon =>
      obtain rfl := Except.error.inj h
      exact .inl (.circle (hway.circle (by simpa using hon)))
    · next hoff =>
      split at h
      · cases h
      · rcases Except.bind_eq_error_iff.1 h with hload | ⟨member, hload, hrest⟩
        · exact .inl (blames_of_load hway.reaches hload)
        · rcases Except.bind_eq_error_iff.1 hrest with hfold | ⟨between, -, hlast⟩
          · -- the first of the references that fails, whatever the others listed before it
            obtain ⟨before, other, later, reached, hreferences, -, hfails⟩ :=
              Except.foldlM_eq_error_iff.1 hfold
            have hother : other ∈ member.references := by simp [hreferences]
            rcases ih (hway.concat (by simpa using hoff) hload hother) hfails with
              hblames | ⟨trail', last, he, hway', hlength⟩
            · exact .inl hblames
            · refine .inr ⟨trail', last, he, hway', ?_⟩
              rw [hlength, List.length_append, List.length_singleton]
              omega
          · cases hlast

/-- **A failure names what is wrong.** What makes a root fail is a circle that it leads
into, named from the root on, or a name that it reaches and that has no source, fails,
or has a faulty one. So it is for any library unless a trail gets longer than the
library says that references go on, and for one that keeps what it says always. -/
theorem culprit_of_resolve (h : resolve library root = .error e) :
    (Blames library root e ∨
      ∃ trail last, e = .circular (trail ++ [last]) ∧ LeadsTo library root trail last ∧
        library.breadth < trail.length) ∧
    (library.Bounded → Blames library root e) := by
  have hextend : extend library (library.breadth + 1) [] [] root = .error e := by
    rcases Except.bind_eq_error_iff.1 h with hextend | ⟨members, -, hmade⟩
    · exact hextend
    · cases hmade
  have hcases := blames_of_extend (.start library root) hextend
  refine ⟨hcases.imp_right ?_, fun hbounded => hcases.resolve_right ?_⟩
  · rintro ⟨trail, last, he, hway, hlength⟩
    exact ⟨trail, last, he, hway, by simp [hlength]⟩
  · rintro ⟨trail, last, -, hway, hlength⟩
    have hle := hway.length_le hbounded
    rw [hlength, List.length_nil] at hle
    omega

/-- A circle that closes through a layout, behind a partial that is resolved by then,
and a partial that is not there. -/
def loopedFrame : Collection where
  documents :=
    [("card", "<data layout='frame'></data><template>{{> icon}}</template>"),
      ("frame", "{{> icon}}{{> card}}"), ("icon", "*"), ("note", "{{> icon}}{{> badge}}"),
      ("page", "{{> icon}}{{> card}}{{> badge}}")]

/-- The circle is named from the root on, and without the name beside it. -/
theorem culprit_of_resolve_loopedFrame :
    resolve loopedFrame.library "page" =
        .error (.circular ["page", "card", "frame", "card"]) ∧
      Blames loopedFrame.library "page" (.circular ["page", "card", "frame", "card"]) ∧
      resolve loopedFrame.library "note" = .error (.templateNotFound "badge" none) ∧
      Blames loopedFrame.library "note" (.templateNotFound "badge" none) := by
  have hpage : Except.error? (resolve loopedFrame.library "page") =
      some (.circular ["page", "card", "frame", "card"]) := by decide +kernel
  have hnote : Except.error? (resolve loopedFrame.library "note") =
      some (.templateNotFound "badge" none) := by decide +kernel
  have hbounded := Collection.bounded_library loopedFrame
  exact ⟨Except.eq_of_error? hpage, (culprit_of_resolve (Except.eq_of_error? hpage)).2 hbounded,
    Except.eq_of_error? hnote, (culprit_of_resolve (Except.eq_of_error? hnote)).2 hbounded⟩

end Graph

end Trellis
