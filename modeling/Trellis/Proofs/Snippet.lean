import Trellis.Proofs.Location
import Trellis.Proofs.Text.Lines
import Trellis.Snippet
/-!
# Snippet — what is shown around a place

A snippet shows the lines of its source that are at most two away from the place,
each under its own number (`excerpt_ofSource`). A caret follows the line of the
place, so there is one if this line is shown and none otherwise. The caret is
seven characters and the column to the right, which is below the column if the
number in front of the line takes no more than the four characters that are kept
for it (`length_gutter_eq_iff`).

Places are counted by line feeds and lines are ended by them. So every place is in
a line, with what stands before it in this line (`getElem?_lines`), except the place
behind a last line feed: nothing follows it that would be a line
(`points_ofSource`, `hides_ofSource`).
-/

namespace Trellis

namespace Snippet

variable {s : Snippet} {source text : String} {place : Location} {number index : Nat}
  {texts : List String} {before behind lead front : List Char}

/-! ## What a snippet says -/

/-- The line that a snippet shows under a number. -/
def lineAt? (s : Snippet) (number : Nat) : Option String :=
  if s.firstLine ≤ number then s.lines[number - s.firstLine]? else none

/-- **That a snippet is an excerpt of a source around a place.** Under each number
it shows the line of the source that has this number, for the lines that are at most
two away from the place, and for no others. -/
structure Excerpt (s : Snippet) (source : String) (place : Location) : Prop where
  line : s.line = place.line
  column : s.column = place.column
  shown : ∀ number text, s.lineAt? number = some text ↔
    1 ≤ number ∧ place.line ≤ number + 2 ∧ number ≤ place.line + 2 ∧
      (Text.lines source.toList)[number - 1]? = some text.toList

/-- The rows of a snippet's text. -/
def rows (s : Snippet) : List (List Char) :=
  Text.pieces '\n' s.shown.toList

/-- What stands in front of a line: its number and a bar. -/
def gutter (number : Nat) : List Char :=
  (padded 4 (toString number)).toList ++ [' ', '|', ' ']

/-- Where the caret is in a row that has a bar and a caret in it and nothing else. -/
def caretIn? (row : List Char) : Option Nat :=
  match row.dropWhile (· = ' ') with
  | '|' :: rest => if rest.dropWhile (· = ' ') = ['^'] then some (row.length - 1) else none
  | _ => none

/-- The carets in rows that are counted from a number on: the number of the row, and
where in the row the caret is. -/
def caretsFrom (first : Nat) (rows : List (List Char)) : List (Nat × Nat) :=
  (rows.zipIdx first).filterMap fun (row, number) =>
    (caretIn? row).map fun index => (number, index)

/-- The carets of a snippet. -/
def carets (s : Snippet) : List (Nat × Nat) :=
  caretsFrom 0 s.rows

/-- **That a snippet points into its line.** It shows the line of the place, which
goes on up to the column, and the only caret is in the row below, where it has the
given index. -/
structure Points (s : Snippet) (index : Nat) : Prop where
  shown : ∃ text, s.lineAt? s.line = some text ∧ s.column ≤ text.length + 1 ∧
    s.rows[s.line - s.firstLine]? = some (gutter s.line ++ text.toList)
  alone : s.carets = [(s.line - s.firstLine + 1, index)]

/-- That a snippet shows neither the line of the place nor a caret. -/
structure Hides (s : Snippet) : Prop where
  unlined : s.lineAt? s.line = none
  uncareted : s.carets = []

/-- **That a snippet shows a place of a source**: it is an excerpt around it, and its
only caret is below the column of the place. -/
structure Shows (s : Snippet) (source : String) (place : Location) : Prop where
  excerpt : s.Excerpt source place
  below : s.Points ((gutter s.line).length + (s.column - 1))

/-! ## Rows -/

/-- Moving a text to the right puts spaces before it. -/
theorem toList_padded (width : Nat) (text : String) :
    (padded width text).toList = List.replicate (width - text.length) ' ' ++ text.toList := by
  rw [padded, String.toList_append, String.toList_ofList]

/-- The row of a caret. -/
def caretRow (column : Nat) : List Char :=
  List.replicate 5 ' ' ++ ['|', ' '] ++ (List.replicate (max column 1 - 1) ' ' ++ ['^'])

theorem toList_caret (column : Nat) : (caret column).toList = caretRow column ++ ['\n'] := by
  rw [caret, String.toList_append, String.toList_append, toList_padded]
  rfl

/-- The rows of numbered lines. The last one, behind the line feed that ends them, is
empty. -/
def rowsFrom (s : Snippet) (number : Nat) : List String → List (List Char)
  | [] => [[]]
  | text :: texts =>
    (gutter number ++ text.toList) ::
      ((if number = s.line then [caretRow s.column] else []) ++ s.rowsFrom (number + 1) texts)

theorem not_mem_gutter (number : Nat) : '\n' ∉ gutter number := by
  have hdigits : '\n' ∉ (toString number).toList := by
    intro h
    rw [Nat.toString_eq_repr, Nat.toList_repr] at h
    have hdigit := Nat.isDigit_of_mem_toDigits (by decide) (by decide) h
    revert hdigit
    decide
  have hspaces : '\n' ∉ List.replicate (4 - (toString number).length) ' ' := by
    intro h
    cases List.eq_of_mem_replicate h
  rw [gutter, toList_padded, List.mem_append, List.mem_append]
  rintro ((h | h) | h)
  · exact hspaces h
  · exact hdigits h
  · simp at h

theorem not_mem_caretRow (column : Nat) : '\n' ∉ caretRow column := by
  simp [caretRow]

/-- **Each line is a row**, and the caret is another behind the line of the place. -/
theorem pieces_shownFrom (h : ∀ text ∈ texts, '\n' ∉ text.toList) (number : Nat) :
    Text.pieces '\n' (s.shownFrom number texts).toList = s.rowsFrom number texts := by
  induction texts generalizing number with
  | nil => rfl
  | cons text texts ih =>
    obtain ⟨htext, htexts⟩ := List.forall_mem_cons.1 h
    have hrow : '\n' ∉ gutter number ++ text.toList := by
      rw [List.mem_append, not_or]
      exact ⟨not_mem_gutter number, htext⟩
    have hshown : (s.shownFrom number (text :: texts)).toList =
        (gutter number ++ text.toList) ++ '\n' ::
          if number = s.line then
            caretRow s.column ++ '\n' :: (s.shownFrom (number + 1) texts).toList
          else (s.shownFrom (number + 1) texts).toList := by
      rw [shownFrom]
      split <;> simp [gutter, toList_caret]
    rw [hshown, Text.pieces_append, Text.pieces_eq_singleton hrow, rowsFrom, ← ih htexts]
    split
    · rw [Text.pieces_append, Text.pieces_eq_singleton (not_mem_caretRow s.column)]
      rfl
    · rfl

theorem rows_eq (hlines : ∀ text ∈ s.lines, '\n' ∉ text.toList) :
    s.rows = s.rowsFrom s.firstLine s.lines :=
  pieces_shownFrom hlines s.firstLine

/-! ## Carets -/

/-- **The row of a line has no caret**, whatever the line holds: its number comes before
the bar. -/
theorem caretIn?_line (number : Nat) (text : List Char) :
    caretIn? (gutter number ++ text) = none := by
  obtain ⟨c, digits, hdigits⟩ : ∃ c digits, Nat.toDigits 10 number = c :: digits :=
    List.exists_cons_of_ne_nil Nat.toDigits_ne_nil
  have hdigit : c.isDigit = true :=
    Nat.isDigit_of_mem_toDigits (by decide) (by decide) (hdigits ▸ List.mem_cons_self)
  have hspace : c ≠ ' ' := by
    rintro rfl
    revert hdigit
    decide
  have hbar : c ≠ '|' := by
    rintro rfl
    revert hdigit
    decide
  have hdrop : (gutter number ++ text).dropWhile (· = ' ') =
      c :: (digits ++ ([' ', '|', ' '] ++ text)) := by
    rw [gutter, toList_padded, Nat.toString_eq_repr, Nat.toList_repr, hdigits]
    simp [hspace]
  unfold caretIn?
  rw [hdrop]
  split
  · next heq => exact absurd (List.cons.inj heq).1 hbar
  · rfl

/-- The row of a caret has it at the column, counted from behind the bar. -/
theorem caretIn?_caretRow (column : Nat) :
    caretIn? (caretRow column) = some (7 + (column - 1)) := by
  have hdrop : (caretRow column).dropWhile (· = ' ') =
      '|' :: ' ' :: (List.replicate (max column 1 - 1) ' ' ++ ['^']) :=
    rfl
  have hrest : (' ' :: (List.replicate (max column 1 - 1) ' ' ++ ['^'])).dropWhile (· = ' ') =
      ['^'] := by
    simp
  have hlength : (caretRow column).length - 1 = 7 + (column - 1) := by
    simp [caretRow]
    omega
  unfold caretIn?
  rw [hdrop, hlength]
  exact if_pos hrest

theorem caretsFrom_cons (first : Nat) (row : List Char) (rows : List (List Char)) :
    caretsFrom first (row :: rows) =
      ((caretIn? row).map fun index => (first, index)).toList ++ caretsFrom (first + 1) rows := by
  rw [caretsFrom, List.zipIdx_cons, List.filterMap_cons]
  dsimp only
  cases caretIn? row <;> rfl

/-- **Numbered lines have one caret if the line of the place is one of them**, in the
row below, and none otherwise. -/
theorem caretsFrom_rowsFrom (first number : Nat) (texts : List String) :
    caretsFrom first (s.rowsFrom number texts) =
      if number ≤ s.line ∧ s.line < number + texts.length then
        [(first + (s.line - number) + 1, 7 + (s.column - 1))]
      else [] := by
  induction texts generalizing first number with
  | nil =>
    rw [if_neg (by rw [List.length_nil]; omega)]
    rfl
  | cons text texts ih =>
    rw [rowsFrom, caretsFrom_cons, caretIn?_line, List.length_cons]
    by_cases hline : number = s.line
    · rw [if_pos hline, List.singleton_append, caretsFrom_cons, caretIn?_caretRow, ih,
        if_neg (by omega), if_pos (by omega), hline, Nat.sub_self]
      rfl
    · rw [if_neg hline, List.nil_append, ih]
      by_cases hlater : number + 1 ≤ s.line ∧ s.line < number + 1 + texts.length
      · have hindex : first + 1 + (s.line - (number + 1)) = first + (s.line - number) := by omega
        rw [if_pos hlater, if_pos (by omega), hindex]
        rfl
      · rw [if_neg hlater, if_neg (by omega)]
        rfl

/-- Up to the line of the place the rows are the lines. -/
theorem getElem?_rowsFrom (hle : number ≤ s.line) (h : texts[s.line - number]? = some text) :
    (s.rowsFrom number texts)[s.line - number]? = some (gutter s.line ++ text.toList) := by
  induction texts generalizing number with
  | nil => cases h
  | cons first texts ih =>
    rw [rowsFrom]
    by_cases hline : number = s.line
    · rw [hline, Nat.sub_self] at h ⊢
      obtain rfl := Option.some.inj h
      rfl
    · obtain ⟨k, hk⟩ : ∃ k, s.line - number = k + 1 := ⟨s.line - number - 1, by omega⟩
      have hmore : s.line - (number + 1) = k := by omega
      rw [hk, List.getElem?_cons_succ, ← hmore] at h
      rw [if_neg hline, List.nil_append, hk, List.getElem?_cons_succ, ← hmore]
      exact ih (by omega) h

/-- **A snippet that shows its line points into it.** -/
theorem points_of_lineAt? (hlines : ∀ text ∈ s.lines, '\n' ∉ text.toList)
    (h : s.lineAt? s.line = some text) (hcolumn : s.column ≤ text.length + 1) :
    s.Points (7 + (s.column - 1)) := by
  have hat := h
  rw [lineAt?] at h
  split at h
  · next hle =>
    have hshort := (List.getElem?_eq_some_iff.1 h).1
    refine ⟨⟨text, hat, hcolumn, ?_⟩, ?_⟩
    · rw [rows_eq hlines]
      exact getElem?_rowsFrom hle h
    · rw [carets, rows_eq hlines, caretsFrom_rowsFrom, if_pos (by omega), Nat.zero_add]
  · cases h

/-- **A snippet that does not show its line has no caret.** -/
theorem hides_of_lineAt? (hlines : ∀ text ∈ s.lines, '\n' ∉ text.toList)
    (h : s.lineAt? s.line = none) : s.Hides := by
  refine ⟨h, ?_⟩
  rw [carets, rows_eq hlines, caretsFrom_rowsFrom, if_neg]
  rintro ⟨hle, hlt⟩
  rw [lineAt?, if_pos hle, List.getElem?_eq_none_iff] at h
  omega

/-! ## Below the column -/

/-- **What stands in front of a line is seven characters long**, as in the row of the
caret, if the number has no more than four digits. -/
theorem length_gutter_eq_iff (number : Nat) : (gutter number).length = 7 ↔ number < 10000 := by
  have hdigits : (toString number).length ≤ 4 ↔ number < 10 ^ 4 := by
    rw [Nat.toString_eq_repr]
    exact Nat.length_repr_le_iff (by decide)
  have hlength : (gutter number).length =
      4 - (toString number).length + (toString number).length + 3 := by
    rw [gutter, toList_padded, List.length_append, List.length_append, List.length_replicate,
      String.length_toList]
    rfl
  omega

theorem Points.unique {other : Nat} (h : s.Points index) (hother : s.Points other) :
    index = other := by
  have hsame := h.alone.symm.trans hother.alone
  simpa using hsame

/-- What is hidden is not pointed to. -/
theorem Hides.not_points (h : s.Hides) : ¬ s.Points index := by
  intro hpoints
  have hnone := hpoints.alone
  rw [h.uncareted] at hnone
  cases hnone

/-- **The caret is below the column** unless the number of the line is too long. -/
theorem Points.below_iff (h : s.Points (7 + (s.column - 1))) :
    s.Points ((gutter s.line).length + (s.column - 1)) ↔ s.line < 10000 := by
  rw [← length_gutter_eq_iff]
  constructor
  · intro hbelow
    have hindex := hbelow.unique h
    omega
  · intro hlength
    rw [hlength]
    exact h

/-! ## Excerpts of a source -/

theorem not_mem_of_mem_ofSource {line column : Nat}
    (h : text ∈ (ofSource source line column).lines) : '\n' ∉ text.toList := by
  obtain ⟨cs, hcs, rfl⟩ := List.mem_map.1 h
  rw [String.toList_ofList]
  exact Text.not_mem_of_mem_lines (List.mem_of_mem_drop (List.mem_of_mem_take hcs))

/-- **The lines around a place are an excerpt of their source.** -/
theorem excerpt_ofSource (source : String) (place : Location) :
    (ofSource source place.line place.column).Excerpt source place := by
  refine ⟨rfl, rfl, fun number text => ?_⟩
  have hlines (cs : Option (List Char)) :
      cs.map String.ofList = some text ↔ cs = some text.toList := by
    rw [Option.map_eq_some_iff]
    constructor
    · rintro ⟨cs, rfl, rfl⟩
      rw [String.toList_ofList]
    · intro h
      exact ⟨_, h, String.ofList_toList⟩
  rw [lineAt?, ofSource]
  dsimp only
  by_cases hfirst : max (place.line - 2) 1 ≤ number
  · have hindex : max (place.line - 2) 1 - 1 + (number - max (place.line - 2) 1) = number - 1 := by
      omega
    rw [if_pos hfirst, List.getElem?_map, hlines, List.getElem?_take]
    split
    · next hlast =>
      rw [List.getElem?_drop, hindex]
      exact ⟨fun h => ⟨by omega, by omega, by omega, h⟩, fun h => h.2.2.2⟩
    · next hlast =>
      constructor
      · intro h
        cases h
      · rintro ⟨-, -, hnear, -⟩
        omega
  · rw [if_neg hfirst]
    constructor
    · intro h
      cases h
    · rintro ⟨hone, hnear, -, -⟩
      omega

/-- The line of a place is shown if the source has it. -/
theorem lineAt?_line (source : String) (place : Location) (hone : 1 ≤ place.line) :
    (ofSource source place.line place.column).lineAt? place.line =
      (Text.lines source.toList)[place.line - 1]?.map String.ofList := by
  have hshown := (excerpt_ofSource source place).shown place.line
  cases hline : (Text.lines source.toList)[place.line - 1]? with
  | none =>
    refine Option.eq_none_iff_forall_ne_some.2 fun text htext => ?_
    rw [hshown, hline] at htext
    cases htext.2.2.2
  | some cs =>
    refine (hshown _).2 ⟨hone, by omega, by omega, ?_⟩
    rw [hline, String.toList_ofList]

/-! ## Places in lines -/

/-- That a text is lines with nothing behind them. -/
def IsLines (lead : List Char) : Prop :=
  lead = [] ∨ ∃ earlier, lead = earlier ++ ['\n']

/-- What stands before a place is lines, and a front that stands in the line of the
place. -/
theorem exists_front (before : List Char) :
    ∃ lead front, before = lead ++ front ∧ IsLines lead ∧ '\n' ∉ front := by
  induction before using List.reverseRecOn with
  | nil => exact ⟨[], [], rfl, .inl rfl, List.not_mem_nil⟩
  | append_singleton before c ih =>
    by_cases hc : c = '\n'
    · subst hc
      exact ⟨before ++ ['\n'], [], (List.append_nil _).symm, .inr ⟨before, rfl⟩, List.not_mem_nil⟩
    · obtain ⟨lead, front, rfl, hlead, hfront⟩ := ih
      refine ⟨lead, front ++ [c], List.append_assoc _ _ _, hlead, ?_⟩
      simp [hfront, Ne.symm hc]

/-- **The place behind lines and a front** is in the line behind these lines, and its
column is that behind the front. -/
theorem after_front (hlead : IsLines lead) (hfront : '\n' ∉ front) :
    (Location.start.after (lead ++ front)).line = lead.count '\n' + 1 ∧
      (Location.start.after (lead ++ front)).column = front.length + 1 := by
  have hall : front.reverse.all (fun c => c ≠ '\n') = true := by
    simpa using fun c hc (heq : c = '\n') => hfront (heq ▸ hc)
  have hstop : ∀ c ∈ lead.reverse.head?, decide (c ≠ '\n') = false := by
    rcases hlead with rfl | ⟨earlier, rfl⟩ <;> simp
  rw [Location.start_after, List.count_append, List.count_eq_zero_of_not_mem hfront,
    List.reverse_append, (Text.span_append hall hstop).1, List.length_reverse]
  exact ⟨rfl, rfl⟩

/-- **The line behind lines is the first one of what is behind them.** -/
theorem getElem?_lines (hlead : IsLines lead) (cs : List Char) :
    (Text.lines (lead ++ cs))[lead.count '\n']? = (Text.lines cs).head? := by
  rw [List.head?_eq_getElem?]
  rcases hlead with rfl | ⟨earlier, rfl⟩
  · rfl
  · have hcount : (earlier ++ ['\n']).count '\n' = (Text.lines (earlier ++ ['\n'])).length := by
      rw [Text.length_lines_break, List.count_append, List.count_singleton_self]
    rw [hcount, List.append_assoc, List.singleton_append, Text.lines_break,
      List.getElem?_append_right (Nat.le_refl _), Nat.sub_self]

/-- The line that a place behind lines and a front is in. -/
theorem lineAt?_front (hlead : IsLines lead) (hfront : '\n' ∉ front)
    (hsource : source.toList = lead ++ front ++ behind)
    (hline : place.line = (Location.start.after (lead ++ front)).line) :
    (ofSource source place.line place.column).lineAt? place.line =
      (Text.lines (front ++ behind)).head?.map String.ofList := by
  have hat := getElem?_lines hlead (front ++ behind)
  rw [(after_front hlead hfront).1] at hline
  rw [lineAt?_line source place (by omega), hline, hsource, Nat.add_sub_cancel, List.append_assoc,
    hat]

/-- **A place that has a line is pointed to**: something stands in its line, before it
or behind. -/
theorem points_ofSource (hsource : source.toList = before ++ behind)
    (hline : place.line = (Location.start.after before).line)
    (hcolumn : place.column = (Location.start.after before).column)
    (hnext : behind.head? ≠ some '\n')
    (hlined : behind = [] → before ≠ [] ∧ before.getLast? ≠ some '\n') :
    (ofSource source place.line place.column).Points (7 + (place.column - 1)) := by
  obtain ⟨lead, front, rfl, hlead, hfront⟩ := exists_front before
  have hsome : Text.lines (front ++ behind) ≠ [] := by
    rw [Ne, Text.lines_eq_nil_iff hfront]
    rintro ⟨rfl, hnone⟩
    obtain ⟨hne, hlast⟩ := hlined hnone
    rcases hlead with rfl | ⟨earlier, rfl⟩
    · exact hne rfl
    · exact hlast (by simp)
  obtain ⟨cs, hcs⟩ := Option.isSome_iff_exists.1 (List.isSome_head?.2 hsome)
  have hshown := lineAt?_front hlead hfront hsource hline
  rw [hcs] at hshown
  refine points_of_lineAt? (fun _ h => not_mem_of_mem_ofSource h) hshown ?_
  have hlength := Text.length_le_of_head?_lines hfront hnext hcs
  rw [String.length_ofList, ofSource, hcolumn, (after_front hlead hfront).2]
  exact Nat.add_le_add_right hlength 1

/-- **A place at a character is pointed to.** -/
theorem points_of_atCharacter (h : Location.AtCharacter source place) :
    (ofSource source place.line place.column).Points (7 + (place.column - 1)) := by
  obtain ⟨c, hc, before, behind, hsource, hplace⟩ := h
  have hline := congrArg Location.line hplace
  have hcolumn := congrArg Location.column hplace
  exact points_ofSource hsource hline hcolumn (by simpa using hc) (by simp)

/-- **The end of a text is pointed to** if it is the end of a line. -/
theorem points_of_end (hplace : place = Location.start.after source.toList)
    (hne : source.toList ≠ []) (hlast : source.toList.getLast? ≠ some '\n') :
    (ofSource source place.line place.column).Points (7 + (place.column - 1)) :=
  points_ofSource (List.append_nil _).symm (congrArg Location.line hplace)
    (congrArg Location.column hplace) (by simp) fun _ => ⟨hne, hlast⟩

/-- **Behind a line feed that nothing follows there is no line.** -/
theorem hides_ofSource (hline : place.line = (Location.start.after source.toList).line)
    (hlast : source.toList.getLast? = some '\n') :
    (ofSource source place.line place.column).Hides := by
  have hlead : IsLines source.toList := by
    obtain ⟨earlier, hearlier⟩ := List.getLast?_eq_some_iff.1 hlast
    exact .inr ⟨earlier, hearlier⟩
  have hall : source.toList ++ [] = source.toList := List.append_nil _
  have hshown := lineAt?_front hlead List.not_mem_nil (by rw [hall, hall]) (by rw [hall, hline])
  exact hides_of_lineAt? (fun _ h => not_mem_of_mem_ofSource h) hshown

end Snippet

end Trellis
