import Mathlib.Data.Option.Basic
import Trellis.Hydration.Claim
/-!
# Hydration — claims that are accepted

A claim is accepted if its window and its origin are there and, on a window that is
claimed already, if it says how to merge (`register_eq_ok_iff`). It is entered behind
the others, so a window that is claimed stays claimed.
-/

namespace Trellis

namespace Hydration

namespace Claims

variable {claims entered : Claims} {claim : Claim} {window : String}

theorem isClaimed_iff : isClaimed claims window = true ↔ window ∈ claims.map Claim.window := by
  simp [isClaimed, first?, List.find?_isSome]

theorem isClaimed_concat :
    isClaimed (claims ++ [claim]) window = true ↔
      isClaimed claims window = true ∨ claim.window = window := by
  rw [isClaimed_iff, isClaimed_iff, List.map_append, List.mem_append, List.map_singleton,
    List.mem_singleton, eq_comm (a := window)]

/-- **Which claims are accepted.** -/
theorem register_eq_ok_iff :
    claims.register claim = .ok entered ↔
      Text.isBlankText claim.window.toList = false ∧ isPresent claim.origin = true ∧
        (isClaimed claims claim.window = true → claim.merge.isSome = true) ∧
        entered = claims ++ [claim] := by
  unfold register isClaimed
  cases Text.isBlankText claim.window.toList with
  | true => simp
  | false =>
    cases isPresent claim.origin with
    | false => simp
    | true =>
      cases first? claims claim.window <;> cases claim.merge <;>
        simp [eq_comm (a := entered)]

/-- **Why a claim is refused**: it has no window, its origin lacks its document, line or
column, or it does not say how to merge on a window that is claimed already. A collision
tells where the first claim on the window was made, and where this one. -/
inductive Refused (claims : Claims) (claim : Claim) : Failure → Prop
  /-- The window is blank. -/
  | blank (blank : Text.isBlankText claim.window.toList = true) :
      Refused claims claim (.invalid .blankWindow)
  /-- The origin is no place. -/
  | placeless (named : Text.isBlankText claim.window.toList = false)
      (lacking : Text.isBlankText claim.origin.document.toList = true ∨ claim.origin.line = 0 ∨
        claim.origin.column = 0) :
      Refused claims claim (.invalid (.noSourceLocation claim.window))
  /-- The window is claimed and there is no way of merging. -/
  | collision {first : Claim} (named : Text.isBlankText claim.window.toList = false)
      (placed : ¬ (Text.isBlankText claim.origin.document.toList = true ∨ claim.origin.line = 0 ∨
        claim.origin.column = 0))
      (unqualified : claim.merge = none)
      (taken : claims.find? (fun c => c.window == claim.window) = some first) :
      Refused claims claim (.collision claim.window first.origin claim.origin)

theorem isPresent_eq_false_iff {origin : Origin} :
    isPresent origin = false ↔ Text.isBlankText origin.document.toList = true ∨
      origin.line = 0 ∨ origin.column = 0 := by
  unfold isPresent
  cases Text.isBlankText origin.document.toList with
  | true => simp
  | false => cases origin.line <;> cases origin.column <;> simp

theorem isPresent_eq_true_iff {origin : Origin} :
    isPresent origin = true ↔ ¬ (Text.isBlankText origin.document.toList = true ∨
      origin.line = 0 ∨ origin.column = 0) := by
  rw [← isPresent_eq_false_iff, Bool.not_eq_false]

/-- **Which claims are refused**, and why. -/
theorem register_eq_error_iff {e : Failure} :
    claims.register claim = .error e ↔ Refused claims claim e := by
  constructor
  · intro h
    unfold register at h
    split at h
    · next hblank =>
      obtain rfl := Except.error.inj h
      exact .blank hblank
    · next hnamed =>
      have hnamed := Bool.eq_false_iff.2 hnamed
      split at h
      · next hlacking =>
        obtain rfl := Except.error.inj h
        exact .placeless hnamed (isPresent_eq_false_iff.1 (by simpa using hlacking))
      · next hplaced =>
        split at h
        · next first htaken hmerge =>
          obtain rfl := Except.error.inj h
          refine .collision hnamed (fun hlacking => hplaced ?_) hmerge htaken
          rw [isPresent_eq_false_iff.2 hlacking]
          rfl
        · cases h
  · intro h
    unfold register
    cases h with
    | blank hblank => rw [if_pos hblank]
    | placeless hnamed hlacking =>
      rw [hnamed, isPresent_eq_false_iff.2 hlacking]
      rfl
    | collision hnamed hplaced hmerge htaken =>
      rw [hnamed, isPresent_eq_true_iff.2 hplaced, hmerge, first?, htaken]
      rfl

end Claims

end Hydration

end Trellis
