import Mathlib.Data.List.Infix
import Trellis.Text.Cut
import Trellis.Text.Quoting
/-!
# Text — what a cut depends on

Cuts look for a needle or for the end of a tag. What they find is settled by the
text up to its end, so text put in behind it changes nothing (`cut?_replace`,
`Quoting.cut?_replace`). A needle that cannot overlap itself is found behind
exactly those texts that it does not occur in (`cut?_eq_some_iff`). A cut at a
byte offset is where the offset's bytes end (`cleave?_width`). The pieces between
separators are those of the library's splitting (`pieces_eq_splitOn`).
-/

namespace Trellis

namespace Text

variable {needle lead a before rest : List Char}

/-- A text has at least as many bytes as characters. -/
theorem length_le_width (cs : List Char) : cs.length ≤ width cs := by
  induction cs with
  | nil => exact Nat.le_refl 0
  | cons c cs ih =>
    have hc := c.utf8Size_pos
    simp only [List.length_cons, width_cons]
    omega

theorem width_pos {cs : List Char} (h : cs ≠ []) : 0 < width cs :=
  Nat.lt_of_lt_of_le (List.length_pos_iff.2 h) (length_le_width cs)

/-- Characters of a kind end where the first one of another kind stands. -/
theorem span_append {kind : Char → Bool} {b : List Char} (ha : a.all kind = true)
    (hb : ∀ c ∈ b.head?, kind c = false) :
    (a ++ b).takeWhile kind = a ∧ (a ++ b).dropWhile kind = b := by
  have hall := List.all_eq_true.1 ha
  rw [List.takeWhile_append_of_pos hall, List.dropWhile_append_of_pos hall]
  cases b with
  | nil => simp
  | cons c b =>
    have hc : ¬ kind c = true := by simp [hb c rfl]
    rw [List.takeWhile_cons_of_neg hc, List.dropWhile_cons_of_neg hc, List.append_nil]
    exact ⟨rfl, rfl⟩

/-- Whether a lead stands in front is settled by as many characters as it
has. -/
theorem behind?_eq_none_replace (hlen : lead.length ≤ a.length)
    (h : behind? lead (a ++ rest) = none) (rest' : List Char) :
    behind? lead (a ++ rest') = none := by
  rw [Option.eq_none_iff_forall_ne_some] at h ⊢
  intro found hfound
  have hprefix : lead <+: a :=
    List.prefix_of_prefix_length_le ⟨found, (behind?_eq_some_iff.1 hfound).symm⟩
      (List.prefix_append a rest') hlen
  obtain ⟨more, rfl⟩ := hprefix
  exact h (more ++ rest) (behind?_eq_some_iff.2 (by simp))

/-- A text that starts with the needle is cut at its start. -/
theorem cut?_of_behind? {cs : List Char} (h : behind? needle cs = some rest) :
    cut? needle cs = some ([], rest) := by
  cases cs with
  | nil =>
    have hnil : needle = [] ∧ rest = [] := by simpa using behind?_eq_some_iff.1 h
    simp [cut?, hnil.1, hnil.2]
  | cons c cs => simp [cut?, h]

/-- A text that the needle cannot start in is what stands before the needle. -/
theorem cut?_of_not_mem {n : Char} (h : n ∉ a) (needle rest : List Char) :
    cut? (n :: needle) (a ++ n :: (needle ++ rest)) = some (a, rest) := by
  induction a with
  | nil => exact cut?_of_behind? (behind?_eq_some_iff.2 rfl)
  | cons c a ih =>
    have hc : n ≠ c := fun e => h (e ▸ List.mem_cons_self)
    have hrest := ih fun hmem => h (List.mem_cons_of_mem c hmem)
    simp [cut?, behind?, hc, hrest]

/-- **A cut is settled by what stands before its end.** -/
theorem cut?_replace {cs : List Char} (h : cut? needle cs = some (before, rest))
    (rest' : List Char) : cut? needle (before ++ needle ++ rest') = some (before, rest') := by
  induction cs generalizing before with
  | nil =>
    simp only [cut?] at h
    split at h
    · next hempty =>
      obtain ⟨rfl, -⟩ := Prod.mk.inj (Option.some.inj h)
      exact cut?_of_behind? (behind?_eq_some_iff.2 rfl)
    · cases h
  | cons c cs ih =>
    simp only [cut?] at h
    split at h
    · obtain ⟨rfl, -⟩ := Prod.mk.inj (Option.some.inj h)
      exact cut?_of_behind? (behind?_eq_some_iff.2 rfl)
    · next hnone =>
      simp only [Option.map_eq_some_iff, Prod.mk.injEq, Prod.exists] at h
      obtain ⟨b, r, hcut, rfl, rfl⟩ := h
      -- the needle stands later, so its window at `c` lies before the end of the cut
      have hlen : needle.length ≤ (c :: (b ++ needle)).length := by
        simp only [List.length_cons, List.length_append]
        omega
      rw [eq_of_cut? hcut, ← List.cons_append] at hnone
      have hwindow := behind?_eq_none_replace hlen hnone rest'
      simp only [List.cons_append, List.append_assoc] at hwindow ⊢
      rw [cut?, hwindow]
      simpa using ih hcut

/-! ## Needles that cannot overlap themselves -/

/-- That no proper end of a needle is also its beginning, so that two occurrences
of it never overlap. -/
def Unbordered (needle : List Char) : Prop :=
  ∀ k < needle.length, 0 < k → needle.take k ≠ needle.drop (needle.length - k)

/-- A needle whose first character comes only once cannot overlap itself. -/
theorem unbordered_cons {n : Char} (h : n ∉ needle) : Unbordered (n :: needle) := by
  intro k hlt hpos heq
  have hhead : n ∈ (n :: needle).take k := by
    rw [← Nat.succ_pred_eq_of_pos hpos]
    exact List.mem_cons_self
  have hdrop : (n :: needle).drop ((n :: needle).length - k) =
      needle.drop ((n :: needle).length - k - 1) := by
    have hsucc : (n :: needle).length - k = (n :: needle).length - k - 1 + 1 := by omega
    rw [hsucc, List.drop_succ_cons, Nat.add_sub_cancel]
  rw [heq, hdrop] at hhead
  exact h (List.mem_of_mem_drop hhead)

/-- What is in front of a cut does not hold the needle. -/
theorem absent_of_cut? {cs : List Char} (hne : needle ≠ [])
    (h : cut? needle cs = some (before, rest)) : ¬ needle <:+: before := by
  induction cs generalizing before with
  | nil =>
    simp only [cut?] at h
    split at h
    · next hempty => exact absurd (List.isEmpty_iff.1 hempty) hne
    · cases h
  | cons c cs ih =>
    simp only [cut?] at h
    split at h
    · obtain ⟨rfl, -⟩ := Prod.mk.inj (Option.some.inj h)
      intro hpart
      exact hne (List.infix_nil.1 hpart)
    · next hnone =>
      simp only [Option.map_eq_some_iff, Prod.mk.injEq, Prod.exists] at h
      obtain ⟨b, r, hcut, rfl, rfl⟩ := h
      intro hpart
      rcases List.infix_cons_iff.1 hpart with ⟨more, hhere⟩ | hlater
      · have hsome : behind? needle (c :: cs) = some (more ++ (needle ++ r)) := by
          rw [behind?_eq_some_iff, eq_of_cut? hcut, ← List.append_assoc needle, hhere]
          simp
        rw [hsome] at hnone
        cases hnone
      · exact ih hcut hlater

/-- **A needle that cannot overlap itself is found** behind a text that does not
hold it. -/
theorem cut?_of_absent (hneedle : Unbordered needle) (h : ¬ needle <:+: a) (rest : List Char) :
    cut? needle (a ++ (needle ++ rest)) = some (a, rest) := by
  induction a with
  | nil => exact cut?_of_behind? (behind?_eq_some_iff.2 rfl)
  | cons c a ih =>
    have hnone : behind? needle (c :: (a ++ (needle ++ rest))) = none := by
      rw [Option.eq_none_iff_forall_ne_some]
      intro found hfound
      rw [behind?_eq_some_iff, ← List.cons_append] at hfound
      rcases List.append_eq_append_iff.1 hfound with ⟨excess, hover, hrest⟩ | ⟨excess, hover, -⟩
      · -- the needle would reach over the end of the text, and its end begin it again
        have hlength := congrArg List.length hover
        rw [List.length_append, List.length_cons] at hlength
        have hend : excess = needle.drop (needle.length - excess.length) := by
          have hfront : needle.length - excess.length = (c :: a).length := by
            rw [List.length_cons]
            omega
          rw [hfront, hover, List.drop_left]
        have hbegin : excess = needle.take excess.length := by
          have := congrArg (List.take excess.length) hrest
          rw [List.take_left, List.take_append_of_le_length (by omega)] at this
          exact this.symm
        rcases Nat.eq_zero_or_pos excess.length with hzero | hpos
        · rw [List.eq_nil_of_length_eq_zero hzero, List.append_nil] at hover
          exact h (hover ▸ List.infix_rfl)
        · exact hneedle excess.length (by omega) hpos (hbegin.symm.trans hend)
      · exact h (hover ▸ (List.prefix_append needle excess).isInfix)
    have hlater := ih fun hpart => h (hpart.trans (List.suffix_cons c a).isInfix)
    rw [List.cons_append, cut?, hnone, hlater]
    rfl

/-- **Where a needle that cannot overlap itself is found.** -/
theorem cut?_eq_some_iff {cs : List Char} (hne : needle ≠ []) (hneedle : Unbordered needle) :
    cut? needle cs = some (before, rest) ↔
      cs = before ++ (needle ++ rest) ∧ ¬ needle <:+: before := by
  constructor
  · intro h
    refine ⟨?_, absent_of_cut? hne h⟩
    rw [eq_of_cut? h, List.append_assoc]
  · rintro ⟨rfl, habsent⟩
    exact cut?_of_absent hneedle habsent rest

/-- A text is cut at a character behind what does not hold that character. -/
theorem cut?_singleton_eq_some_iff {n : Char} {cs : List Char} :
    cut? [n] cs = some (before, rest) ↔ cs = before ++ n :: rest ∧ n ∉ before := by
  rw [cut?_eq_some_iff (List.cons_ne_nil n []) (unbordered_cons List.not_mem_nil),
    List.singleton_infix_iff, List.singleton_append]

/-- It is not cut only if it does not hold the character at all. -/
theorem not_mem_of_cut?_eq_none {n : Char} {cs : List Char} (h : cut? [n] cs = none) : n ∉ cs := by
  intro hmem
  obtain ⟨before, rest, rfl, hbefore⟩ := List.eq_append_cons_of_mem hmem
  rw [cut?_singleton_eq_some_iff.2 ⟨rfl, hbefore⟩] at h
  cases h

/-! ## Cuts at offsets -/

/-- **The bytes of a text end where it ends.** -/
theorem cleave?_width (a rest : List Char) : cleave? (width a) (a ++ rest) = some (a, rest) := by
  induction a with
  | nil => simp [cleave?]
  | cons c a ih =>
    have hc := c.utf8Size_pos
    obtain ⟨n, hn⟩ : ∃ n, width (c :: a) = n + 1 := ⟨width (c :: a) - 1, by
      rw [width_cons]
      omega⟩
    have hbehind : n + 1 - c.utf8Size = width a := by
      rw [← hn, width_cons]
      omega
    have hle : c.utf8Size ≤ n + 1 := by
      rw [← hn, width_cons]
      omega
    rw [hn, List.cons_append, cleave?, if_pos hle, hbehind, ih]
    · rfl
    · omega

/-- Two first parts of a text that are equally wide are the same. -/
theorem eq_of_append_of_width {b c : List Char} (h : a ++ b = before ++ c)
    (hwidth : width a = width before) : a = before ∧ b = c := by
  have hcut := cleave?_width a b
  rw [h, hwidth, cleave?_width, Option.some_inj] at hcut
  obtain ⟨rfl, rfl⟩ := Prod.mk.inj hcut
  exact ⟨rfl, rfl⟩

/-- A cut at an offset loses nothing, and the first part is as wide as the
offset says. -/
theorem eq_of_cleave? {cs : List Char} {offset : Nat} (h : cleave? offset cs = some (before, rest)) :
    cs = before ++ rest ∧ width before = offset := by
  fun_induction cleave? offset cs generalizing before with
  | case1 cs =>
    cases h
    exact ⟨rfl, rfl⟩
  | case2 => cases h
  | case3 offset c cs hpos hle ih =>
    simp only [Option.map_eq_some_iff, Prod.mk.injEq, Prod.exists] at h
    obtain ⟨b, r, hcut, rfl, rfl⟩ := h
    obtain ⟨hcs, hwidth⟩ := ih hcut
    refine ⟨by rw [hcs]; rfl, ?_⟩
    rw [width_cons, hwidth]
    omega
  | case4 => cases h

/-- **The boundaries of a text** are the offsets at which a first part of it ends. -/
theorem isBoundary_iff {cs : List Char} {offset : Nat} :
    isBoundary cs offset = true ↔ ∃ before rest, cs = before ++ rest ∧ width before = offset := by
  rw [isBoundary, Option.isSome_iff_exists]
  constructor
  · rintro ⟨⟨before, rest⟩, hcut⟩
    exact ⟨before, rest, eq_of_cleave? hcut⟩
  · rintro ⟨before, rest, rfl, rfl⟩
    exact ⟨_, cleave?_width before rest⟩

/-- A slice of a text is the part of it between its offsets. -/
theorem slice?_width (a b rest : List Char) :
    slice? (width a) (width a + width b) (a ++ (b ++ rest)) = some b := by
  simp [slice?, cleave?_width]

/-! ## Ends of tags -/

/-- **A tag ends where it ends, whatever follows.** -/
theorem Quoting.cut?_replace {blank : Char → Bool} {s : Quoting} {cs inner : List Char}
    (h : s.cut? blank cs = some (inner, rest)) (rest' : List Char) :
    s.cut? blank (inner ++ '>' :: rest') = some (inner, rest') := by
  induction cs generalizing s inner with
  | nil => simp [Quoting.cut?] at h
  | cons c cs ih =>
    simp only [Quoting.cut?] at h
    split at h
    · next hends =>
      obtain ⟨rfl, -⟩ := Prod.mk.inj (Option.some.inj h)
      cases s <;> simp_all [Quoting.ends, Quoting.cut?]
    · next hends =>
      simp only [Option.map_eq_some_iff, Prod.mk.injEq, Prod.exists] at h
      obtain ⟨i, r, hcut, rfl, rfl⟩ := h
      simp [Quoting.cut?, hends, ih hcut]

/-! ## Pieces -/

variable {separator : Char} {piece : List Char}

/-- Pieces are those of core's splitting. -/
theorem pieces_eq_splitOn (separator : Char) (cs : List Char) :
    pieces separator cs = cs.splitOn separator := by
  have hgo (piece : List Char) :
      pieces.go separator piece cs = cs.splitOnPPrepend (· == separator) piece := by
    induction cs generalizing piece with
    | nil => rfl
    | cons c cs ih =>
      rw [pieces.go, List.splitOnPPrepend_cons_eq_if, ih, ih]
      simp only [beq_iff_eq, List.splitOnPPrepend_nil_right]
  exact hgo []

/-- A separator ends the last piece of what is before it. -/
theorem pieces_append (separator : Char) (a b : List Char) :
    pieces separator (a ++ separator :: b) = pieces separator a ++ pieces separator b := by
  simp only [pieces_eq_splitOn, List.splitOn_append_cons_self]

/-- The pieces of a text say what the text is. -/
theorem pieces_injective (separator : Char) : Function.Injective (pieces separator) := by
  intro a b h
  rw [pieces_eq_splitOn, pieces_eq_splitOn] at h
  have hjoin := congrArg (List.intercalate [separator]) h
  rwa [List.intercalate_splitOn, List.intercalate_splitOn] at hjoin

/-- A text without the separator is one piece. -/
theorem pieces_eq_singleton {separator : Char} {cs : List Char} (h : separator ∉ cs) :
    pieces separator cs = [cs] := by
  rw [pieces_eq_splitOn, List.splitOn_eq_singleton h]

theorem pieces_ne_nil (separator : Char) (cs : List Char) : pieces separator cs ≠ [] := by
  rw [pieces_eq_splitOn]
  exact List.splitOn_ne_nil separator cs

/-- No piece holds the separator. -/
theorem not_mem_of_mem_pieces (h : piece ∈ pieces separator a) : separator ∉ piece := by
  rw [pieces_eq_splitOn] at h
  induction a generalizing piece with
  | nil =>
    rw [List.splitOn_nil, List.mem_singleton] at h
    simp [h]
  | cons c a ih =>
    rw [List.splitOn_cons_eq_if_modifyHead] at h
    split at h
    · rcases List.mem_cons.1 h with rfl | h
      · exact List.not_mem_nil
      · exact ih h
    · next hc =>
      have hne : separator ≠ c := fun e => hc (beq_iff_eq.2 e.symm)
      cases hsplit : a.splitOn separator with
      | nil => exact absurd hsplit (List.splitOn_ne_nil separator a)
      | cons first others =>
        rw [hsplit] at h ih
        rcases List.mem_cons.1 h with rfl | h
        · simp [hne, ih List.mem_cons_self]
        · exact ih (List.mem_cons_of_mem first h)

/-- What is put behind the last piece stands behind the whole. -/
theorem intercalate_concat_append (s a b : List Char) (ps : List (List Char)) :
    s.intercalate (ps ++ [a ++ b]) = s.intercalate (ps ++ [a]) ++ b := by
  induction ps with
  | nil => simp [List.intercalate]
  | cons p ps ih =>
    rw [List.cons_append, List.cons_append, List.intercalate_cons_of_ne_nil (by simp),
      List.intercalate_cons_of_ne_nil (by simp), ih]
    simp only [List.append_assoc]

end Text

end Trellis
