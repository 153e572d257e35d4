import Trellis.Hydration.Claim
import Trellis.Keyed
/-!
# Hydration — the registry of a request

A registry keeps the claims of one request in the order in which they were accepted,
and beside them an index that says for each window which of them came first. The index
answers whether a window is claimed and where its first claim is; the claims are looked
up by position alone. A call that refuses a claim touches neither.
-/

namespace Trellis

namespace Hydration

/-- Claims with the positions of the first ones. -/
structure Registry where
  /-- The claims accepted so far, in their order. -/
  claims : Claims
  /-- For each claimed window the position of its first claim. -/
  index : Keyed Nat
  /-- The positions are those of claims. -/
  inside : ∀ window position, index.get? window = some position → position < claims.length

namespace Registry

/-- The registry without claims. -/
def empty : Registry where
  claims := []
  index := []
  inside _ _ h := nomatch h

/-- The registry with one more claim on a window that the index has. -/
def again (r : Registry) (claim : Claim) : Registry where
  claims := r.claims ++ [claim]
  index := r.index
  inside window position h := by
    have := r.inside window position h
    rw [List.length_append]
    omega

/-- The registry with the first claim on a window, which is entered in the index. -/
def enter (r : Registry) (claim : Claim) : Registry where
  claims := r.claims ++ [claim]
  index := r.index.insert claim.window r.claims.length
  inside window position h := by
    rw [Keyed.get?_insert] at h
    rw [List.length_append, List.length_singleton]
    split at h
    · obtain rfl := Option.some.inj h
      omega
    · have := r.inside window position h
      omega

/-- **Registers a claim**: what the call answers, and the registry behind it. -/
def register (r : Registry) (claim : Claim) : Except Failure Unit × Registry :=
  if Text.isBlankText claim.window.toList then (.error (.invalid .blankWindow), r)
  else if !isPresent claim.origin then (.error (.invalid (.noSourceLocation claim.window)), r)
  else
    match h : r.index.get? claim.window with
    | some position =>
      if claim.merge.isNone then
        let first := r.claims.get ⟨position, r.inside _ _ h⟩
        (.error (.collision claim.window first.origin claim.origin), r)
      else (.ok (), r.again claim)
    | none => (.ok (), r.enter claim)

/-- The registry made ready for the next request. -/
def clear (_ : Registry) : Registry :=
  empty

/-- Whether a window is claimed. -/
def isClaimed (r : Registry) (window : String) : Bool :=
  r.index.contains window

/-- Whether an entry of an index comes before another: by position, and by window where
positions are the same. -/
def precedes (a b : String × Nat) : Bool :=
  decide (a.2 < b.2) || a.2 == b.2 && decide (a.1 ≤ b.1)

/-- The windows of entries of an index, by position. -/
def byPosition (entries : List (String × Nat)) : List String :=
  (entries.mergeSort precedes).map Prod.fst

/-- The claimed windows, in the order of their first claims. -/
def windows (r : Registry) : List String :=
  byPosition r.index

end Registry

end Hydration

end Trellis
