import Trellis.Text.Cut
/-!
# Text — the lines of a text

A line feed ends a line, so the lines of a text are those up to a line feed, as
many as there are line feeds, and the lines of what is behind it (`lines_break`).
Nothing behind the last line feed is no line, so a text has as many lines as line
feeds, and one more if it goes on behind them.
-/

namespace Trellis

namespace Text

variable {a b cs front line : List Char} {acc : List Char}

/-! ## Reading on in a line -/

/-- A line feed ends a line, whatever follows. -/
theorem linesGo_break (acc a b : List Char) :
    lines.go acc (a ++ '\n' :: b) = lines.go acc (a ++ ['\n']) ++ lines.go [] b := by
  induction a generalizing acc with
  | nil => rfl
  | cons c a ih =>
    rw [List.cons_append, List.cons_append, lines.go, lines.go]
    split
    · rw [ih, List.cons_append]
    · exact ih (c :: acc)

/-- There are as many lines as line feeds that end one. -/
theorem length_linesGo (acc a : List Char) :
    (lines.go acc (a ++ ['\n'])).length = a.count '\n' + 1 := by
  induction a generalizing acc with
  | nil => rfl
  | cons c a ih =>
    rw [List.cons_append, lines.go]
    split
    · next hc => rw [hc, List.length_cons, ih, List.count_cons_self]
    · next hc => rw [ih, List.count_cons_of_ne hc]

/-- Characters without a line feed go on with the line. -/
theorem linesGo_append (hfront : '\n' ∉ front) (acc cs : List Char) :
    lines.go acc (front ++ cs) = lines.go (front.reverse ++ acc) cs := by
  induction front generalizing acc with
  | nil => rfl
  | cons c front ih =>
    rw [List.mem_cons, not_or] at hfront
    rw [List.cons_append, lines.go, if_neg (Ne.symm hfront.1), ih hfront.2]
    simp

/-- No line holds a line feed. -/
theorem not_mem_of_mem_linesGo (hacc : '\n' ∉ acc) (h : line ∈ lines.go acc cs) : '\n' ∉ line := by
  induction cs generalizing acc with
  | nil =>
    rw [lines.go] at h
    split at h
    · cases h
    · rw [List.mem_singleton.1 h, List.mem_reverse]
      exact hacc
  | cons c cs ih =>
    rw [lines.go] at h
    split at h
    · rcases List.mem_cons.1 h with rfl | h
      · rw [List.mem_reverse]
        split
        · exact fun hmem => hacc (List.mem_of_mem_tail hmem)
        · exact hacc
      · exact ih List.not_mem_nil h
    · next hc => exact ih (by simp [Ne.symm hc, hacc]) h

/-- A line loses no more than one character at its end. -/
theorem length_le_of_head?_linesGo (h : (lines.go acc cs).head? = some line) :
    acc.length ≤ line.length + 1 := by
  induction cs generalizing acc with
  | nil =>
    rw [lines.go] at h
    split at h
    · cases h
    · obtain rfl := Option.some.inj h
      simp
  | cons c cs ih =>
    rw [lines.go] at h
    split at h
    · obtain rfl := Option.some.inj h
      split
      · rw [List.length_reverse, List.length_tail]
        omega
      · rw [List.length_reverse]
        omega
    · have hmore := ih h
      rw [List.length_cons] at hmore
      omega

/-! ## Lines -/

/-- **The lines of a text are those up to a line feed and those behind it.** -/
theorem lines_break (a b : List Char) : lines (a ++ '\n' :: b) = lines (a ++ ['\n']) ++ lines b :=
  linesGo_break [] a b

theorem length_lines_break (a : List Char) : (lines (a ++ ['\n'])).length = a.count '\n' + 1 :=
  length_linesGo [] a

/-- **No line holds a line feed.** -/
theorem not_mem_of_mem_lines (h : line ∈ lines cs) : '\n' ∉ line :=
  not_mem_of_mem_linesGo List.not_mem_nil h

/-- A text without characters is one without lines. -/
theorem lines_eq_nil_iff (hfront : '\n' ∉ front) : lines (front ++ cs) = [] ↔ front = [] ∧ cs = [] := by
  have hgo (acc cs : List Char) : lines.go acc cs = [] ↔ acc = [] ∧ cs = [] := by
    induction cs generalizing acc with
    | nil => simp [lines.go]
    | cons c cs ih =>
      rw [lines.go]
      split
      · simp
      · simp [ih]
  rw [lines, linesGo_append hfront, hgo]
  simp

/-- **A line holds what stands in it**, if that ends it or no line feed comes next. -/
theorem length_le_of_head?_lines (hfront : '\n' ∉ front) (hcs : cs.head? ≠ some '\n')
    (h : (lines (front ++ cs)).head? = some line) : front.length ≤ line.length := by
  rw [lines, linesGo_append hfront, List.append_nil] at h
  cases cs with
  | nil =>
    rw [lines.go] at h
    split at h
    · cases h
    · obtain rfl := Option.some.inj h
      simp
  | cons c cs =>
    rw [lines.go, if_neg (by simpa using hcs)] at h
    have hmore := length_le_of_head?_linesGo h
    simpa using hmore

end Text

end Trellis
