import Mathlib.Data.List.DropRight
import Trellis.Text.Blank
/-!
# Text — what trimming leaves

A text is left as it is exactly if it has no blank at either end
(`trim_eq_self_iff`), and blanks in front of a text make no difference to what
trimming leaves.
-/

namespace Trellis

namespace Text

variable {cs rest : List Char} {b c : Char}

/-- A blank differs from whatever is none. -/
theorem ne_of_isBlank (hb : isBlank b = true) (hc : isBlank c = false) : b ≠ c := by
  rintro rfl
  rw [hc] at hb
  cases hb

theorem ne_of_isBlankText (h : isBlankText cs = true) (hc : isBlank c = false) :
    ∀ b ∈ cs, b ≠ c :=
  fun b hb => ne_of_isBlank (List.all_eq_true.1 h b hb) hc

theorem isBlankText_reverse (cs : List Char) : isBlankText cs.reverse = isBlankText cs := by
  rw [isBlankText, List.all_reverse, isBlankText]

/-- A text without a blank in front is left as it is in front. -/
theorem trimStart_eq_self_iff : trimStart cs = cs ↔ ∀ c ∈ cs.head?, isBlank c = false := by
  cases cs with
  | nil => simp [trimStart]
  | cons c cs => simp [trimStart, List.dropWhile_eq_self_iff]

/-- A text without a blank behind is left as it is behind. -/
theorem trimEnd_eq_self_iff : trimEnd cs = cs ↔ ∀ c ∈ cs.getLast?, isBlank c = false := by
  have htrim : trimEnd cs = cs.rdropWhile isBlank := rfl
  rw [htrim, List.rdropWhile_eq_self_iff]
  constructor
  · intro h c hc
    obtain ⟨hne, rfl⟩ := List.mem_getLast?_eq_getLast hc
    simpa using h hne
  · intro h hne
    simpa using h _ (List.getLast?_eq_some_getLast hne)

/-- **Trimming leaves exactly the texts without a blank at either end.** -/
theorem trim_eq_self_iff :
    trim cs = cs ↔ (∀ c ∈ cs.head?, isBlank c = false) ∧ ∀ c ∈ cs.getLast?, isBlank c = false := by
  rw [← trimStart_eq_self_iff, ← trimEnd_eq_self_iff]
  constructor
  · intro h
    -- both steps take from the text, so neither has taken anything
    have hend : (trimEnd (trimStart cs)).length ≤ (trimStart cs).length :=
      (List.rdropWhile_prefix isBlank _).length_le
    have hstart : trimStart cs <:+ cs := List.dropWhile_suffix isBlank
    have hlength := congrArg List.length h
    have hself : trimStart cs = cs := by
      refine hstart.eq_of_length_le ?_
      rw [trim] at hlength
      omega
    refine ⟨hself, ?_⟩
    rwa [trim, hself] at h
  · rintro ⟨hstart, hend⟩
    rw [trim, hstart, hend]

/-- What trimming leaves is left as it is. -/
theorem trim_trim (cs : List Char) : trim (trim cs) = trim cs := by
  refine trim_eq_self_iff.2 ⟨fun c hc => ?_, fun c hc => ?_⟩
  · -- what trimming leaves begins as what is left in front does
    obtain ⟨behind, hbehind⟩ : trim cs <+: trimStart cs := List.rdropWhile_prefix isBlank _
    have hhead : c ∈ (trimStart cs).head? := by
      rw [← hbehind, List.head?_append, Option.mem_def.1 hc]
      rfl
    have hstart : trimStart (trimStart cs) = trimStart cs := List.dropWhile_idempotent isBlank cs
    exact trimStart_eq_self_iff.1 hstart c hhead
  · have hend : trimEnd (trim cs) = trim cs := List.rdropWhile_idempotent isBlank _
    exact trimEnd_eq_self_iff.1 hend c hc

@[simp] theorem trimmed_trimmed (s : String) : trimmed (trimmed s) = trimmed s := by
  rw [trimmed, trimmed, String.toList_ofList, trim_trim]

/-- Blanks in front make no difference. -/
theorem trim_cons_of_isBlank (h : isBlank b = true) : trim (b :: cs) = trim cs := by
  simp [trim, trimStart, h]

/-- Blanks in front of a character that is none are what is cut off in front. -/
theorem trimStart_append (h : isBlankText cs = true) (hc : isBlank c = false) :
    trimStart (cs ++ c :: rest) = c :: rest := by
  rw [trimStart, List.dropWhile_append_of_pos (List.all_eq_true.1 h),
    List.dropWhile_cons_of_neg (by simp [hc])]

/-- What is cut off in front is blank. -/
theorem exists_of_trimStart (cs : List Char) :
    ∃ blanks, isBlankText blanks = true ∧ cs = blanks ++ trimStart cs :=
  ⟨cs.takeWhile isBlank, List.all_takeWhile, List.takeWhile_append_dropWhile.symm⟩

/-- **The first character of a text that is no blank.** -/
theorem trimStart_eq_cons_iff :
    trimStart cs = c :: rest ↔
      isBlank c = false ∧ ∃ blanks, isBlankText blanks = true ∧ cs = blanks ++ c :: rest := by
  constructor
  · intro h
    obtain ⟨blanks, hblanks, heq⟩ := exists_of_trimStart cs
    have hhead : isBlank c = false := by
      have hnot := List.head?_dropWhile_not isBlank cs
      rw [← trimStart, h] at hnot
      simpa using hnot
    exact ⟨hhead, blanks, hblanks, h ▸ heq⟩
  · rintro ⟨hc, blanks, hblanks, rfl⟩
    exact trimStart_append hblanks hc

end Text

end Trellis
