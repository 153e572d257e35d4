import Mathlib.Data.List.Induction
import Mathlib.Data.List.Nodup
import Trellis.Text.Cut
/-!
# Text — each name once

`distinct` keeps the first of equal names and their order. It is the same as
dropping the repetitions of a list, so its answer holds the same names, none
of them twice.
-/

namespace Trellis

namespace Text

variable {names : List String} {name : String}

/-- One more name stands behind the others, or is there already. -/
theorem distinct_concat (names : List String) (name : String) :
    distinct (names ++ [name]) =
      if name ∈ distinct names then distinct names else distinct names ++ [name] := by
  simp [distinct, List.foldl_append]

theorem mem_distinct : name ∈ distinct names ↔ name ∈ names := by
  induction names using List.reverseRecOn with
  | nil => exact Iff.rfl
  | append_singleton names last ih =>
    rw [distinct_concat, List.mem_append, List.mem_singleton, ← ih]
    split
    · next hlast =>
      constructor
      · exact .inl
      · rintro (h | rfl)
        · exact h
        · exact hlast
    · rw [List.mem_append, List.mem_singleton]

theorem nodup_distinct (names : List String) : (distinct names).Nodup := by
  induction names using List.reverseRecOn with
  | nil => exact List.nodup_nil
  | append_singleton names last ih =>
    rw [distinct_concat]
    split
    · exact ih
    · next hlast =>
      rw [← List.concat_eq_append]
      exact ih.concat hlast

theorem length_distinct_le (names : List String) : (distinct names).length ≤ names.length := by
  induction names using List.reverseRecOn with
  | nil => exact Nat.le_refl 0
  | append_singleton names last ih =>
    rw [distinct_concat, List.length_append, List.length_singleton]
    split
    · omega
    · rw [List.length_append, List.length_singleton]
      omega

/-- **What is left are the names without their repetitions.** -/
theorem distinct_eq_eraseDups (names : List String) : distinct names = names.eraseDups := by
  induction names using List.reverseRecOn with
  | nil => rfl
  | append_singleton names last ih =>
    have hmem : last ∈ names.eraseDups ↔ last ∈ names := ih ▸ mem_distinct
    rw [distinct_concat, List.eraseDups_append, ih]
    by_cases hlast : last ∈ names
    · simp [hmem, hlast, List.removeAll]
    · simp [hmem, hlast, List.removeAll, List.eraseDups_cons]

end Text

end Trellis
