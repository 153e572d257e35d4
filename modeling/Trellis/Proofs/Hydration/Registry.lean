import Mathlib.Data.List.DropRight
import Mathlib.Data.String.Basic
import Trellis.Hydration.Registry
import Trellis.Proofs.Hydration.Claims
import Trellis.Proofs.Text.Distinct
/-!
# Hydration — what a registry keeps

A registry answers from its index and its book by turns, so the two must tell the same.
What they agree on (`Consistent`) holds at the start and behind every call, refused ones
and the clearing of the registry included. A consistent registry answers as its claims
alone would (`Consistent.register_of_ok`, `Consistent.register_of_error`), so after any
calls it is known what it holds and what the next call will do (`kept_after`).
-/

namespace Trellis

namespace Hydration

namespace Registry

variable {r next : Registry} {claim : Claim} {claims entered : Claims} {window : String}
  {position : Nat} {e : Failure} {entries ranked : List (String × Nat)}

/-! ## The order of positions -/

theorem precedes_iff {a b : String × Nat} :
    precedes a b = true ↔ a.2 < b.2 ∨ a.2 = b.2 ∧ a.1 ≤ b.1 := by
  simp [precedes]

theorem precedes_trans {a b c : String × Nat} (hab : precedes a b = true)
    (hbc : precedes b c = true) : precedes a c = true := by
  rw [precedes_iff] at *
  rcases hab with hab | ⟨hab, hab'⟩ <;> rcases hbc with hbc | ⟨hbc, hbc'⟩
  · exact .inl (by omega)
  · exact .inl (by omega)
  · exact .inl (by omega)
  · exact .inr ⟨hab.trans hbc, String.le_trans hab' hbc'⟩

theorem precedes_total (a b : String × Nat) : (precedes a b || precedes b a) = true := by
  rw [Bool.or_eq_true, precedes_iff, precedes_iff]
  rcases Nat.lt_trichotomy a.2 b.2 with hlt | heq | hgt
  · exact .inl (.inl hlt)
  · rcases String.le_total a.1 b.1 with hle | hle
    · exact .inl (.inr ⟨heq, hle⟩)
    · exact .inr (.inr ⟨heq.symm, hle⟩)
  · exact .inr (.inl hgt)

/-- **Entries are read by position**, in whatever order they come. -/
theorem byPosition_eq (hperm : entries.Perm ranked) (hranked : ranked.Pairwise fun a b => a.2 < b.2) :
    byPosition entries = ranked.map Prod.fst := by
  have hsorted : (entries.mergeSort precedes).Pairwise fun a b => precedes a b = true :=
    @List.pairwise_mergeSort _ precedes (fun _ _ _ => precedes_trans) precedes_total entries
  have hranked' : ranked.Pairwise fun a b => precedes a b = true :=
    hranked.imp fun hlt => precedes_iff.2 (.inl hlt)
  have hsame : entries.mergeSort precedes = ranked := by
    refine List.Perm.eq_of_pairwise ?_ hsorted hranked' ((List.mergeSort_perm _ _).trans hperm)
    intro a b _ _ hab hba
    rw [precedes_iff] at hab hba
    have heq : a.2 = b.2 := by omega
    refine Prod.ext (String.le_antisymm ?_ ?_) heq
    · exact (hab.resolve_left (by omega)).2
    · exact (hba.resolve_left (by omega)).2
  exact congrArg (List.map Prod.fst) hsame

/-! ## What the index and the claims agree on -/

/-- **That a registry is consistent.** -/
structure Consistent (r : Registry) : Prop where
  /-- The index has the position of the first claim on each claimed window, and no other. -/
  indexed : ∀ window, r.index.get? window = r.claims.findIdx? fun c => c.window == window
  /-- Its entries are the claimed windows in the order of their first claims. -/
  ranked : ∃ ranked : List (String × Nat), r.index.Perm ranked ∧
    ranked.map Prod.fst = Text.distinct (r.claims.map Claim.window) ∧
    ranked.Pairwise fun a b => a.2 < b.2
  /-- A claim on a window that an earlier one is on says how it is merged. -/
  merged : r.claims.Pairwise fun c d => d.window = c.window → d.merge.isSome = true

namespace Consistent

theorem empty : Registry.empty.Consistent where
  indexed _ := rfl
  ranked := ⟨[], .refl _, rfl, List.Pairwise.nil⟩
  merged := List.Pairwise.nil

/-- The first claim on a window stands where the index says. -/
theorem find?_eq (h : r.Consistent) (window : String) :
    r.claims.find? (fun c => c.window == window) =
      (r.index.get? window).bind fun position => r.claims[position]? := by
  rw [h.indexed, List.find?_eq_getElem?_findIdx]
  cases hfound : r.claims.findIdx? fun c => c.window == window with
  | none =>
    rw [List.findIdx?_eq_none_iff] at hfound
    rw [List.findIdx_eq_length.2 hfound, List.getElem?_eq_none (Nat.le_refl _)]
    rfl
  | some position =>
    rw [(List.findIdx?_eq_some_iff_findIdx_eq.1 hfound).2]
    rfl

/-- A window that the index does not have is not claimed. -/
theorem window_ne (h : r.Consistent) (hnew : r.index.get? window = none) {c : Claim}
    (hc : c ∈ r.claims) : c.window ≠ window := by
  rw [h.indexed, List.findIdx?_eq_none_iff] at hnew
  simpa using hnew c hc

/-- A window that the index has is claimed. -/
theorem mem_windows (h : r.Consistent) (hthere : r.index.get? window = some position) :
    window ∈ r.claims.map Claim.window := by
  rw [h.indexed] at hthere
  obtain ⟨hlt, hfound, -⟩ := List.findIdx?_eq_some_iff_getElem.1 hthere
  exact List.mem_map.2 ⟨_, List.getElem_mem hlt, by simpa using hfound⟩

/-- An entry of the index is found under its window, and its position is inside. -/
theorem lt_of_mem (h : r.Consistent) {entry : String × Nat} (hentry : entry ∈ r.index) :
    entry.2 < r.claims.length := by
  obtain ⟨ranked, hperm, hwindows, -⟩ := h.ranked
  have hnodup : (Keyed.keys r.index).Nodup := by
    rw [Keyed.keys, (hperm.map Prod.fst).nodup_iff, hwindows]
    exact Text.nodup_distinct _
  exact r.inside entry.1 entry.2 (Keyed.get?_of_mem hnodup hentry)

/-- **A further claim** on a window that is claimed, with a way of merging, keeps a
registry consistent. -/
theorem again (h : r.Consistent) (hthere : r.index.get? claim.window = some position)
    (hmerge : claim.merge.isSome = true) : (r.again claim).Consistent where
  indexed window := by
    rw [Registry.again, List.findIdx?_append, ← h.indexed]
    by_cases hwindow : claim.window = window
    · rw [← hwindow, hthere]
      rfl
    · simp [hwindow]
  ranked := by
    obtain ⟨ranked, hperm, hwindows, hpairwise⟩ := h.ranked
    refine ⟨ranked, hperm, ?_, hpairwise⟩
    rw [Registry.again, List.map_append, List.map_singleton, Text.distinct_concat,
      if_pos (Text.mem_distinct.2 (h.mem_windows hthere)), hwindows]
  merged := by
    refine List.pairwise_append.2 ⟨h.merged, List.pairwise_singleton _ _, ?_⟩
    intro c _ d hd _
    rw [List.mem_singleton.1 hd]
    exact hmerge

/-- **The first claim** on a window keeps a registry consistent. -/
theorem enter (h : r.Consistent) (hnew : r.index.get? claim.window = none) :
    (r.enter claim).Consistent where
  indexed window := by
    rw [Registry.enter, List.findIdx?_append, ← h.indexed, Keyed.get?_insert]
    split
    · next hwindow =>
      rw [← hwindow, hnew]
      simp
    · next hwindow => simp [hwindow]
  ranked := by
    obtain ⟨ranked, hperm, hwindows, hpairwise⟩ := h.ranked
    refine ⟨ranked ++ [(claim.window, r.claims.length)], ?_, ?_, ?_⟩
    · exact (Keyed.insert_perm hnew _).trans
        ((hperm.cons _).trans (List.perm_append_singleton _ _).symm)
    · have hfresh : claim.window ∉ Text.distinct (r.claims.map Claim.window) := by
        rw [Text.mem_distinct]
        intro hmem
        obtain ⟨c, hc, hwindow⟩ := List.mem_map.1 hmem
        exact h.window_ne hnew hc hwindow
      rw [Registry.enter, List.map_append, List.map_append, List.map_singleton,
        List.map_singleton, Text.distinct_concat, if_neg hfresh, hwindows]
    · refine List.pairwise_append.2 ⟨hpairwise, List.pairwise_singleton _ _, ?_⟩
      intro entry hentry last hlast
      rw [List.mem_singleton.1 hlast]
      exact h.lt_of_mem (hperm.mem_iff.2 hentry)
  merged := by
    refine List.pairwise_append.2 ⟨h.merged, List.pairwise_singleton _ _, ?_⟩
    intro c hc d hd hwindow
    rw [List.mem_singleton.1 hd] at hwindow
    exact absurd hwindow.symm (h.window_ne hnew hc)

/-- **A claim that the claims alone accept** is entered. -/
theorem register_of_ok (h : r.Consistent) (hok : r.claims.register claim = .ok entered) :
    ∃ next, r.register claim = (.ok (), next) ∧ next.claims = entered ∧ next.Consistent := by
  obtain ⟨hnamed, hplaced, hmerge, rfl⟩ := Claims.register_eq_ok_iff.1 hok
  unfold register
  rw [hnamed, hplaced, if_neg Bool.false_ne_true, if_neg (by simp)]
  split
  · next position hthere =>
    have hsome := hmerge (Claims.isClaimed_iff.2 (h.mem_windows hthere))
    rw [if_neg (by simp [Option.ne_none_iff_isSome.2 hsome])]
    exact ⟨r.again claim, rfl, rfl, h.again hthere hsome⟩
  · next hnew => exact ⟨r.enter claim, rfl, rfl, h.enter hnew⟩

/-- **A claim that the claims alone refuse** is refused for the same reason, and nothing
else happens. -/
theorem register_of_error (h : r.Consistent) (hrefused : Claims.Refused r.claims claim e) :
    r.register claim = (.error e, r) := by
  unfold register
  cases hrefused with
  | blank hblank => rw [if_pos hblank]
  | placeless hnamed hlacking =>
    rw [hnamed, Claims.isPresent_eq_false_iff.2 hlacking]
    rfl
  | @collision first hnamed hplaced hmerge htaken =>
    rw [hnamed, Claims.isPresent_eq_true_iff.2 hplaced, if_neg Bool.false_ne_true, if_neg (by simp)]
    rw [h.find?_eq] at htaken
    obtain ⟨position, hthere, hfirst⟩ := Option.bind_eq_some_iff.1 htaken
    split
    · next position' hthere' =>
      obtain rfl : position' = position := Option.some.inj (hthere'.symm.trans hthere)
      rw [hmerge]
      obtain ⟨_, rfl⟩ := List.getElem?_eq_some_iff.1 hfirst
      rfl
    · next hnew => cases hnew.symm.trans hthere

/-- **Which claims are refused** is what the claims alone say. -/
theorem register_eq_error_iff (h : r.Consistent) :
    (r.register claim).1 = .error e ↔ Claims.Refused r.claims claim e := by
  constructor
  · intro herror
    cases hclaims : r.claims.register claim with
    | ok entered =>
      obtain ⟨next, hnext, -, -⟩ := h.register_of_ok hclaims
      rw [hnext] at herror
      cases herror
    | error e' =>
      have hrefused := Claims.register_eq_error_iff.1 hclaims
      rw [h.register_of_error hrefused] at herror
      obtain rfl := Except.error.inj herror
      exact hrefused
  · intro hrefused
    rw [h.register_of_error hrefused]

/-- **A refused claim** leaves the registry as it was. -/
theorem register_unchanged (h : r.Consistent) (herror : (r.register claim).1 = .error e) :
    (r.register claim).2 = r := by
  rw [h.register_of_error (h.register_eq_error_iff.1 herror)]

/-- The claimed windows come in the order of their first claims, in whatever order the
index has its entries. -/
theorem byPosition_eq (h : r.Consistent) (hperm : entries.Perm r.index) :
    byPosition entries = (r.claims.map Claim.window).eraseDups := by
  obtain ⟨ranked, hranked, hwindows, hpairwise⟩ := h.ranked
  rw [Registry.byPosition_eq (hperm.trans hranked) hpairwise, hwindows,
    Text.distinct_eq_eraseDups]

end Consistent

/-! ## Runs -/

/-- A call that may change a registry. -/
inductive Call where
  /-- A claim is to be entered. -/
  | register (claim : Claim)
  /-- A request is over. -/
  | clear
  deriving DecidableEq

/-- What a call answers, and the registry behind it. -/
def call (r : Registry) : Call → Except Failure Unit × Registry
  | .register claim => r.register claim
  | .clear => (.ok (), r.clear)

/-- The registry behind calls. -/
def after (r : Registry) (calls : List Call) : Registry :=
  calls.foldl (fun r c => (r.call c).2) r

/-- Calls with what they answer. -/
def answered (r : Registry) : List Call → List (Call × Except Failure Unit)
  | [] => []
  | c :: calls => (c, (r.call c).1) :: answered (r.call c).2 calls

/-- The claim that a call entered, if it did. -/
def entered? : Call × Except Failure Unit → Option Claim
  | (.register claim, .ok ()) => some claim
  | _ => none

/-- The claims accepted since a registry was last cleared. -/
def accepted (history : List (Call × Except Failure Unit)) : Claims :=
  (history.rtakeWhile fun x => x.1 ≠ .clear).filterMap entered?

variable {history : List (Call × Except Failure Unit)} {calls : List Call} {c : Call}

theorem after_append (r : Registry) (first second : List Call) :
    r.after (first ++ second) = (r.after first).after second :=
  List.foldl_append

theorem after_concat (r : Registry) (calls : List Call) (c : Call) :
    r.after (calls ++ [c]) = ((r.after calls).call c).2 :=
  r.after_append calls [c]

theorem answered_concat (r : Registry) (calls : List Call) (c : Call) :
    r.answered (calls ++ [c]) = r.answered calls ++ [(c, ((r.after calls).call c).1)] := by
  induction calls generalizing r with
  | nil => rfl
  | cons first calls ih => exact congrArg (_ :: ·) (ih _)

theorem accepted_concat_clear (history : List (Call × Except Failure Unit))
    (answer : Except Failure Unit) : accepted (history ++ [(.clear, answer)]) = [] := by
  rw [accepted, List.rtakeWhile_concat, if_neg (by simp)]
  rfl

theorem accepted_concat_register (history : List (Call × Except Failure Unit)) (claim : Claim)
    (answer : Except Failure Unit) :
    accepted (history ++ [(.register claim, answer)]) =
      accepted history ++ (entered? (.register claim, answer)).toList := by
  rw [accepted, List.rtakeWhile_concat, if_pos (by simp), List.filterMap_append]
  cases answer <;> rfl

/-- **What a call does** to a consistent registry that has the claims accepted so far. -/
theorem Consistent.call (h : r.Consistent) (hclaims : r.claims = accepted history) (c : Call) :
    (r.call c).2.Consistent ∧
      (r.call c).2.claims = accepted (history ++ [(c, (r.call c).1)]) := by
  cases c with
  | clear => exact ⟨.empty, (accepted_concat_clear _ _).symm⟩
  | register claim =>
    rw [accepted_concat_register, ← hclaims, Registry.call]
    cases hregister : r.claims.register claim with
    | ok entered =>
      obtain ⟨next, hnext, hentered, hconsistent⟩ := h.register_of_ok hregister
      obtain ⟨-, -, -, rfl⟩ := Claims.register_eq_ok_iff.1 hregister
      rw [hnext]
      exact ⟨hconsistent, hentered⟩
    | error e =>
      rw [h.register_of_error (Claims.register_eq_error_iff.1 hregister)]
      exact ⟨h, (List.append_nil _).symm⟩

/-- **What calls do** to an empty registry. -/
theorem consistent_after (calls : List Call) :
    (empty.after calls).Consistent ∧
      (empty.after calls).claims = accepted (empty.answered calls) := by
  induction calls using List.reverseRecOn with
  | nil => exact ⟨.empty, rfl⟩
  | append_singleton calls c ih =>
    rw [after_concat, answered_concat]
    exact ih.1.call ih.2 c

/-- **What a registry keeps** behind the calls of a history. -/
structure Kept (history : List (Call × Except Failure Unit)) (r : Registry) : Prop where
  /-- Its claims are those accepted since it was last cleared, in order. -/
  claims_eq : r.claims = accepted history
  /-- Of the claims on a window all but the first say how they are merged. -/
  merged : r.claims.Pairwise fun c d => d.window = c.window → d.merge.isSome = true
  /-- The index has the position of the first claim on each claimed window, and no other. -/
  indexed : ∀ window, r.index.get? window = r.claims.findIdx? fun c => c.window == window
  /-- The claimed windows are told each once, in the order of their first claims, in
  whatever order the index has its entries. -/
  told : ∀ entries : List (String × Nat), entries.Perm r.index →
    byPosition entries = (r.claims.map Claim.window).eraseDups
  /-- The next claim is refused for one of the reasons there are, and only then. -/
  refused : ∀ claim e, (r.register claim).1 = .error e ↔ Claims.Refused r.claims claim e
  /-- A refused claim leaves the registry as it was. -/
  unchanged : ∀ claim e, (r.register claim).1 = .error e → (r.register claim).2 = r

/-- **The claims and the index of a registry tell the same**, behind whatever calls. -/
theorem kept_after (calls : List Call) : Kept (empty.answered calls) (empty.after calls) where
  claims_eq := (consistent_after calls).2
  merged := (consistent_after calls).1.merged
  indexed := (consistent_after calls).1.indexed
  told _ hperm := (consistent_after calls).1.byPosition_eq hperm
  refused _ _ := (consistent_after calls).1.register_eq_error_iff
  unchanged _ _ := (consistent_after calls).1.register_unchanged

end Registry

end Hydration

end Trellis
