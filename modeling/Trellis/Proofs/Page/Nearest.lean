import Mathlib.Order.Bounds.Basic
import Trellis.Proofs.Page.Partition
/-!
# Page — the nearest safe offsets

The span at an offset is looked up as the last of those that start before it. They come
first, so it is found by halving (`searchedAt?_eq`), and being in order the spans leave
no other that could hold the offset. From an offset that a span holds, the nearest safe
offsets are the ends of that span, and from any other the nearest boundaries. So each
query answers with the greatest or the least safe offset on its side
(`queries_exact`).
-/

namespace Trellis

namespace Page

variable {p : Page} {offset o found : Nat} {s : Span}

/-- **A span is split strictly inside**, and behind its start if it has no end. -/
theorem Span.splits_iff :
    s.splits offset = true ↔ s.start < offset ∧ (offset < s.stop ∨ s.closed = false) := by
  simp [splits]

/-! ## Looking up a span by halving -/

section Halving

variable {α : Type} {test : α → Bool} {low high : Nat} {front back : List α}

/-- The number of elements that pass a test which the elements up to some place pass and
those behind it do not, found by halving a range that the place lies in. -/
def halve (test : α → Bool) (xs : List α) (low high : Nat) : Nat :=
  if low < high then
    let middle := low + (high - low) / 2
    if (xs[middle]?).any test then halve test xs (middle + 1) high
    else halve test xs low middle
  else low
termination_by high - low

/-- **Halving finds the place behind which a test no longer holds.** -/
theorem halve_append (hfront : ∀ x ∈ front, test x = true) (hback : ∀ x ∈ back, test x = false)
    (hlow : low ≤ front.length) (hhigh : front.length ≤ high) :
    halve test (front ++ back) low high = front.length := by
  fun_induction halve test (front ++ back) low high with
  | case1 low high hlt middle hpasses ih =>
    refine ih ?_ hhigh
    -- what is behind the front does not pass
    by_contra hle
    rw [List.getElem?_append_right (by omega)] at hpasses
    cases hx : back[middle - front.length]? with
    | none => simp [hx] at hpasses
    | some x => simp [hx, hback x (List.mem_of_getElem? hx)] at hpasses
  | case2 low high hlt middle hfails ih =>
    refine ih hlow ?_
    -- what is in front passes
    by_contra hle
    have hin : middle < front.length := by omega
    rw [List.getElem?_append_left hin, List.getElem?_eq_getElem hin, Option.any_some] at hfails
    exact hfails (hfront _ (List.getElem_mem hin))
  | case3 low high hge => omega

end Halving

/-- The span that holds an offset strictly inside, looked up by halving: the one before
the place where spans no longer start before the offset, if it is split there. -/
def searchedAt? (p : Page) (offset : Nat) : Option Span :=
  match halve (fun s => decide (s.start < offset)) p.spans 0 p.spans.length with
  | 0 => none
  | index + 1 => (p.spans[index]?).filter fun s => s.splits offset

/-- Behind the spans that start before an offset none does. -/
theorem le_start_of_mem_dropWhile {ss : List Span} (h : Ordered ss)
    (hs : s ∈ ss.dropWhile fun s => s.start < offset) : offset ≤ s.start := by
  induction ss with
  | nil => cases hs
  | cons first ss ih =>
    by_cases hfirst : first.start < offset
    · rw [List.dropWhile_cons_of_pos (by simpa using hfirst)] at hs
      exact ih h.tail hs
    · rw [List.dropWhile_cons_of_neg (by simpa using hfirst)] at hs
      have hpos := h.nonempty first List.mem_cons_self
      rcases List.mem_cons.1 hs with rfl | hs
      · omega
      · have := ((List.pairwise_cons.1 h.apart).1 s hs).2
        omega

/-- **Halving finds the span that a look at all spans finds.** -/
theorem searchedAt?_eq (h : Ordered p.spans) (offset : Nat) :
    p.searchedAt? offset = p.spans.find? fun s => s.splits offset := by
  have hsplit : (p.spans.takeWhile fun s => s.start < offset) ++
      (p.spans.dropWhile fun s => s.start < offset) = p.spans := List.takeWhile_append_dropWhile
  have hhalve : halve (fun s => decide (s.start < offset)) p.spans 0 p.spans.length =
      (p.spans.takeWhile fun s => s.start < offset).length := by
    have hlength := congrArg List.length hsplit
    rw [List.length_append] at hlength
    conv_lhs => rw [← hsplit]
    refine halve_append (fun s hs => ?_) (fun s hs => ?_) (Nat.zero_le _) ?_
    · exact List.mem_takeWhile_imp (p := fun s : Span => decide (s.start < offset)) hs
    · have := le_start_of_mem_dropWhile h hs
      simp only [decide_eq_false_iff_not]
      omega
    · rw [hsplit]
      omega
  rw [searchedAt?, hhalve, ← find?_splits_eq h]
  cases hlength : (p.spans.takeWhile fun s => s.start < offset).length with
  | zero =>
    rw [List.length_eq_zero_iff.1 hlength]
    rfl
  | succ index =>
    have hspan : p.spans[index]? = (p.spans.takeWhile fun s => s.start < offset)[index]? := by
      conv_lhs => rw [← hsplit, List.getElem?_append_left (by omega)]
    rw [List.getLast?_eq_getElem?, hlength, Nat.add_sub_cancel, ← hspan]

/-! ## Before an offset -/

/-- A safe offset is not behind the start of a span that holds a later one. -/
theorem le_start_of_splits (hsplits : s.splits offset = true) (ho : s.splits o = false)
    (hle : o ≤ offset) : o ≤ s.start := by
  obtain ⟨-, hreach⟩ := Span.splits_iff.1 hsplits
  by_contra hlt
  have hheld : s.splits o = true :=
    Span.splits_iff.2 ⟨by omega, hreach.imp_left fun hstop => by omega⟩
  rw [ho] at hheld
  cases hheld

/-- **There is a greatest safe offset at or before an offset**, and the search finds it. -/
theorem exists_safeBefore? (h : Ordered p.spans)
    (hstarts : ∀ s ∈ p.spans, Text.isBoundary p.text s.start = true) (offset : Nat) :
    ∃ found, p.safeBefore? offset = some found ∧
      IsGreatest {o | o ≤ offset ∧ p.isSafe o = true} found := by
  fun_induction safeBefore? p offset with
  | case1 offset s hs hboundary =>
    have hmem := mem_of_spanAt? h hs
    have hsplits := splits_of_spanAt? hs
    have hsafe : p.isSafe s.start = true :=
      (isSafe_iff h).2 ⟨hboundary, fun t ht => not_splits_start h hmem ht⟩
    refine ⟨s.start, rfl, ⟨?_, hsafe⟩, ?_⟩
    · exact Nat.le_of_lt (Span.splits_iff.1 hsplits).1
    · rintro o ⟨hle, ho⟩
      exact le_start_of_splits hsplits (((isSafe_iff h).1 ho).2 s hmem) hle
  | case2 offset s hs hboundary => exact absurd (hstarts s (mem_of_spanAt? h hs)) hboundary
  | case3 offset s hs hboundary => exact absurd (hstarts s (mem_of_spanAt? h hs)) hboundary
  | case4 offset hnone hboundary =>
    have hsafe : p.isSafe offset = true := by simp [isSafe, hboundary, hnone]
    exact ⟨offset, rfl, ⟨Nat.le_refl _, hsafe⟩, fun o ho => ho.1⟩
  | case5 hnone hboundary =>
    exact absurd (Text.isBoundary_iff.2 ⟨[], p.text, rfl, rfl⟩) hboundary
  | case6 offset hnone hboundary hpos ih =>
    obtain ⟨found, hfound, ⟨hle, hsafe⟩, hgreatest⟩ := ih
    refine ⟨found, hfound, ⟨by omega, hsafe⟩, ?_⟩
    rintro o ⟨ho, hosafe⟩
    have hne : o ≠ offset := by
      rintro rfl
      exact hboundary ((isSafe_iff h).1 hosafe).1
    exact hgreatest ⟨by omega, hosafe⟩

/-! ## Behind an offset -/

/-- A safe offset is not before the end of a span that holds an earlier one, and there
is none if that span has no end. -/
theorem closed_of_splits (hsplits : s.splits offset = true) (ho : s.splits o = false)
    (hle : offset ≤ o) : s.closed = true ∧ s.stop ≤ o := by
  obtain ⟨hstart, -⟩ := Span.splits_iff.1 hsplits
  have hreach : ¬ (o < s.stop ∨ s.closed = false) := by
    intro hreach
    rw [Span.splits_iff.2 ⟨by omega, hreach⟩] at ho
    cases ho
  rw [not_or, Bool.not_eq_false] at hreach
  exact ⟨hreach.2, by omega⟩

/-- A page has no boundary behind its end. -/
theorem le_size_of_isSafe (h : Ordered p.spans) (ho : p.isSafe o = true) : o ≤ p.size := by
  obtain ⟨before, rest, htext, rfl⟩ := Text.isBoundary_iff.1 ((isSafe_iff h).1 ho).1
  rw [size, htext, Text.width_append]
  omega

/-- **The search behind an offset** finds the least safe one, unless there is none. -/
theorem nearestSafeAfter?_cases (h : Ordered p.spans)
    (hstops : ∀ s ∈ p.spans, Text.isBoundary p.text s.stop = true) (offset : Nat) :
    (∃ found, p.nearestSafeAfter? offset = some found ∧
      IsLeast {o | offset ≤ o ∧ p.isSafe o = true} found) ∨
    p.nearestSafeAfter? offset = none ∧ ∀ o, offset ≤ o → p.isSafe o = false := by
  fun_induction nearestSafeAfter? p offset with
  | case1 offset hsize =>
    refine .inr ⟨rfl, fun o hle => Bool.eq_false_iff.2 fun ho => ?_⟩
    have := le_size_of_isSafe h ho
    omega
  | case2 offset hsize s hs hopen =>
    have hopen : s.closed = false := by simpa using hopen
    refine .inr ⟨rfl, fun o hle => Bool.eq_false_iff.2 fun ho => ?_⟩
    have hsafe := ((isSafe_iff h).1 ho).2 s (mem_of_spanAt? h hs)
    have hclosed := (closed_of_splits (splits_of_spanAt? hs) hsafe hle).1
    rw [hopen] at hclosed
    cases hclosed
  | case3 offset hsize s hs hclosed hboundary =>
    have hclosed : s.closed = true := by simpa using hclosed
    have hmem := mem_of_spanAt? h hs
    have hsplits := splits_of_spanAt? hs
    have hsafe : p.isSafe s.stop = true :=
      (isSafe_iff h).2 ⟨hboundary, fun t ht => not_splits_stop h hmem hclosed ht⟩
    refine .inl ⟨s.stop, rfl, ⟨?_, hsafe⟩, ?_⟩
    · rcases (Span.splits_iff.1 hsplits).2 with hstop | hopen
      · exact Nat.le_of_lt hstop
      · rw [hclosed] at hopen
        cases hopen
    · rintro o ⟨hle, ho⟩
      exact (closed_of_splits hsplits (((isSafe_iff h).1 ho).2 s hmem) hle).2
  | case4 offset hsize s hs hclosed hboundary =>
    exact absurd (hstops s (mem_of_spanAt? h hs)) hboundary
  | case5 offset hsize hnone hboundary =>
    have hsafe : p.isSafe offset = true := by simp [isSafe, hboundary, hnone]
    exact .inl ⟨offset, rfl, ⟨Nat.le_refl _, hsafe⟩, fun o ho => ho.1⟩
  | case6 offset hsize hnone hboundary ih =>
    have hne : ∀ o, p.isSafe o = true → o ≠ offset := by
      rintro o ho rfl
      exact hboundary ((isSafe_iff h).1 ho).1
    rcases ih with ⟨found, hfound, ⟨hle, hsafe⟩, hleast⟩ | ⟨hfound, hnever⟩
    · refine .inl ⟨found, hfound, ⟨by omega, hsafe⟩, ?_⟩
      rintro o ⟨hle, ho⟩
      have := hne o ho
      exact hleast ⟨by omega, ho⟩
    · refine .inr ⟨hfound, fun o hle => Bool.eq_false_iff.2 fun ho => ?_⟩
      have := hne o ho
      have := hnever o (by omega)
      rw [ho] at this
      cases this

theorem nearestSafeAfter?_eq_some_iff (h : Ordered p.spans)
    (hstops : ∀ s ∈ p.spans, Text.isBoundary p.text s.stop = true) :
    p.nearestSafeAfter? offset = some found ↔ IsLeast {o | offset ≤ o ∧ p.isSafe o = true} found := by
  rcases nearestSafeAfter?_cases h hstops offset with ⟨least, hfound, hleast⟩ | ⟨hnone, hnever⟩
  · rw [hfound, Option.some_inj]
    exact ⟨fun heq => heq ▸ hleast, hleast.unique⟩
  · rw [hnone]
    constructor
    · intro hsome
      cases hsome
    · rintro ⟨⟨hle, hsafe⟩, -⟩
      rw [hnever found hle] at hsafe
      cases hsafe

theorem nearestSafeAfter?_eq_none_iff (h : Ordered p.spans)
    (hstops : ∀ s ∈ p.spans, Text.isBoundary p.text s.stop = true) :
    p.nearestSafeAfter? offset = none ↔ ∀ o, offset ≤ o → p.isSafe o = false := by
  rcases nearestSafeAfter?_cases h hstops offset with ⟨least, hfound, hleast⟩ | ⟨hnone, hnever⟩
  · rw [hfound]
    constructor
    · intro hnone
      cases hnone
    · intro hnever
      have hsafe := hleast.1.2
      rw [hnever least hleast.1.1] at hsafe
      cases hsafe
  · exact ⟨fun _ => hnever, fun _ => hnone⟩

/-! ## The queries -/

/-- **What the queries of a page answer.** -/
structure Queries (html : List Char) (p : Page) : Prop where
  /-- An offset is safe exactly if it is a boundary of the page and strictly inside no
  span, where one without its end holds everything behind its start. -/
  isSafe_iff : ∀ offset, p.isSafe offset = true ↔
    (∃ before rest, html = before ++ rest ∧ Text.width before = offset) ∧
      ∀ s ∈ p.spans, ¬ (s.start < offset ∧ (offset < s.stop ∨ s.closed = false))
  /-- Looking a span up by halving agrees with asking all of them. -/
  searched : ∀ offset, p.spanAt? offset = p.searchedAt? offset ∧
    p.searchedAt? offset = p.spans.find? fun s => s.splits offset
  /-- Before an offset there is always a safe one, and the greatest is found. -/
  greatest : ∀ offset, ∃ found, p.nearestSafeBefore? offset = some found ∧
    IsGreatest {o | o ≤ min offset (Text.width html) ∧ p.isSafe o = true} found
  /-- Behind an offset the least safe one is found. -/
  least : ∀ offset found, p.nearestSafeAfter? offset = some found ↔
    IsLeast {o | offset ≤ o ∧ p.isSafe o = true} found
  /-- None is found there only if there is none. -/
  none_iff : ∀ offset, p.nearestSafeAfter? offset = none ↔ ∀ o, offset ≤ o → p.isSafe o = false

/-- **The queries of a page are exact**, and the nearest safe offsets the best ones. -/
theorem queries_exact (html : List Char) : Queries html (scan html) := by
  have h := ordered_scan html
  have hstarts : ∀ s ∈ (scan html).spans, Text.isBoundary html s.start = true :=
    fun s hs => ((partition_scan html).boundaries s hs).1
  have hstops : ∀ s ∈ (scan html).spans, Text.isBoundary html s.stop = true :=
    fun s hs => ((partition_scan html).boundaries s hs).2
  refine ⟨fun offset => ?_, fun offset => ?_, fun offset => ?_, fun offset found => ?_,
    fun offset => ?_⟩
  · rw [Page.isSafe_iff h, ← Text.isBoundary_iff]
    simp only [← Span.splits_iff, Bool.not_eq_true]
    exact Iff.rfl
  · rw [searchedAt?_eq h, spanAt?_eq_find? h]
    exact ⟨rfl, rfl⟩
  · exact exists_safeBefore? h hstarts (min offset (Text.width html))
  · exact nearestSafeAfter?_eq_some_iff h hstops
  · exact nearestSafeAfter?_eq_none_iff h hstops

end Page

end Trellis
