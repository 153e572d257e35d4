import Mathlib.Data.List.TakeWhile
import Mathlib.Tactic.ByContra
import Trellis.Page.Span
import Trellis.Proofs.Text.Cut
/-!
# Page — the spans in their order

The spans of a page follow one another: none is empty, one that has another
behind it is closed and ends before that one starts (`ordered_scan`). So the
last span that starts before an offset is the only one that can hold it, and an
offset is safe exactly if it is a boundary that no span is split at
(`isSafe_iff`). The queries for near offsets answer with safe ones.
-/

namespace Trellis

namespace Page

variable {offset : Nat} {cs rest : List Char} {k : Construct} {p : Page}

/-! ## One step of the scan -/

@[simp] theorem piecesFrom_nil : piecesFrom offset [] = [] := by
  rw [piecesFrom]

/-- A construct gives a piece, and the scan goes on behind it. -/
theorem piecesFrom_of_some (h : construct? cs = some k) :
    piecesFrom offset cs =
      ⟨⟨offset, offset + Text.width k.text, k.kind, k.closed⟩, k.text⟩ ::
        piecesFrom (offset + Text.width k.text) k.rest := by
  cases cs with
  | nil => simp [construct?] at h
  | cons c cs =>
    rw [piecesFrom]
    split <;> simp_all

/-- A character that starts nothing is passed over. -/
theorem piecesFrom_of_none {c : Char} (h : construct? (c :: rest) = none) :
    piecesFrom offset (c :: rest) = piecesFrom (offset + c.utf8Size) rest := by
  rw [piecesFrom]
  split <;> simp_all

/-- A construct without its end takes the rest of the page. -/
theorem rest_eq_nil_of_not_closed (h : construct? cs = some k) (hopen : k.closed = false) :
    k.rest = [] := by
  unfold construct? at h
  split at h
  · split at h
    · cases h
      unfold commentBehind at hopen ⊢
      split at hopen <;> simp_all
    · split at h
      · cases h
        unfold tagBehind at hopen ⊢
        split at hopen
        · simp_all
        · dsimp only at hopen ⊢
          split at hopen
          · cases hopen
          · split at hopen <;> simp_all
      · cases h
  · cases h

/-- **A piece lies in the text that it was read from** and is not empty. -/
theorem bounds_of_mem_piecesFrom {piece : Piece} (h : piece ∈ piecesFrom offset cs) :
    offset ≤ piece.span.start ∧ piece.span.start < piece.span.stop ∧
      piece.span.stop ≤ offset + Text.width cs := by
  fun_induction piecesFrom offset cs with
  | case1 => cases h
  | case2 offset c cs k hk stop ih =>
    have hpos := Text.width_pos (text_ne_nil_of_construct? hk)
    have hwidth := congrArg Text.width (eq_of_construct? hk)
    rw [Text.width_append] at hwidth
    rcases List.mem_cons.1 h with rfl | hmem
    · refine ⟨Nat.le_refl _, ?_, ?_⟩ <;> simp only [stop] <;> omega
    · have := ih hmem
      omega
  | case3 offset c cs hnone ih =>
    have := ih h
    simp only [Text.width_cons]
    omega

/-! ## Spans in order -/

/-- Spans in order: none is empty, and one with another behind it is closed and
ends before that one starts. -/
structure Ordered (ss : List Span) : Prop where
  /-- No span is empty. -/
  nonempty : ∀ s ∈ ss, s.start < s.stop
  /-- A span with another behind it ends before that one. -/
  apart : ss.Pairwise fun s t => s.closed = true ∧ s.stop ≤ t.start

theorem Ordered.tail {s : Span} {ss : List Span} (h : Ordered (s :: ss)) : Ordered ss :=
  ⟨fun t ht => h.nonempty t (List.mem_cons_of_mem s ht), (List.pairwise_cons.1 h.apart).2⟩

/-- **The spans of a text are in order.** -/
theorem ordered_piecesFrom (offset : Nat) (cs : List Char) :
    Ordered ((piecesFrom offset cs).map Piece.span) := by
  refine ⟨?_, ?_⟩
  · intro s hs
    obtain ⟨piece, hpiece, rfl⟩ := List.mem_map.1 hs
    exact (bounds_of_mem_piecesFrom hpiece).2.1
  · fun_induction piecesFrom offset cs with
    | case1 => exact List.Pairwise.nil
    | case2 offset c cs k hk stop ih =>
      refine List.pairwise_cons.2 ⟨?_, ih⟩
      intro t ht
      obtain ⟨piece, hpiece, rfl⟩ := List.mem_map.1 ht
      refine ⟨?_, (bounds_of_mem_piecesFrom hpiece).1⟩
      -- behind an open construct nothing is left to be a piece
      by_contra hopen
      rw [rest_eq_nil_of_not_closed hk (by simpa using hopen), piecesFrom_nil] at hpiece
      cases hpiece
    | case3 offset c cs hnone ih => exact ih

/-- **The spans of a page are in order.** -/
theorem ordered_scan (html : List Char) : Ordered (scan html).spans :=
  ordered_piecesFrom 0 html

/-- The last span that starts before an offset is the only one that can hold
it. -/
theorem find?_splits_eq {ss : List Span} (h : Ordered ss) (offset : Nat) :
    ((ss.takeWhile fun s => s.start < offset).getLast?.filter fun s => s.splits offset) =
      ss.find? fun s => s.splits offset := by
  induction ss with
  | nil => rfl
  | cons s ss ih =>
    have hnonempty := h.nonempty s List.mem_cons_self
    have hbehind := (List.pairwise_cons.1 h.apart).1
    have ih := ih h.tail
    by_cases hstart : s.start < offset
    · by_cases hsplits : s.splits offset = true
      · have hnil : (ss.takeWhile fun t => t.start < offset) = [] := by
          rw [List.takeWhile_eq_nil_iff]
          intro hpos ht
          have hlater := hbehind _ (List.get_mem ss ⟨0, hpos⟩)
          simp only [Span.splits, Bool.and_eq_true, Bool.or_eq_true, Bool.not_eq_true',
            decide_eq_true_eq] at hsplits ht
          rw [hlater.1] at hsplits
          have := hlater.2
          simp at hsplits
          omega
        simp [hstart, hsplits, hnil]
      · have hfind : (s :: ss).find? (fun t => t.splits offset) = ss.find? fun t => t.splits offset :=
          List.find?_cons_of_neg hsplits
        rw [List.takeWhile_cons_of_pos (by simpa using hstart), hfind, ← ih]
        cases hwhile : ss.takeWhile fun t => t.start < offset with
        | nil => simp [hsplits]
        | cons t ts => rw [List.getLast?_cons_cons]
    · have hnone : (s :: ss).find? (fun t => t.splits offset) = none := by
        rw [List.find?_eq_none]
        intro t ht hsplits
        simp only [Span.splits, Bool.and_eq_true, decide_eq_true_eq] at hsplits
        rcases List.mem_cons.1 ht with rfl | ht
        · exact hstart hsplits.1
        · have := (hbehind t ht).2
          omega
      rw [hnone, List.takeWhile_cons_of_neg (by simpa using hstart)]
      rfl

/-- **The span at an offset is the one that the offset splits.** -/
theorem spanAt?_eq_find? (h : Ordered p.spans) (offset : Nat) :
    p.spanAt? offset = p.spans.find? fun s => s.splits offset :=
  find?_splits_eq h offset

/-- Spans that follow one another without a gap, from an offset up to
another. -/
def Tiles (start stop : Nat) : List Span → Prop
  | [] => start = stop
  | s :: ss => s.start = start ∧ Tiles s.stop stop ss

/-- The last of them ends where they do. -/
theorem Tiles.stop_getLast? {start stop : Nat} {ss : List Span} (h : Tiles start stop ss)
    (hne : ss ≠ []) : ss.getLast?.map Span.stop = some stop := by
  induction ss generalizing start with
  | nil => exact absurd rfl hne
  | cons s ss ih =>
    cases ss with
    | nil => exact congrArg some h.2
    | cons t ss =>
      rw [List.getLast?_cons_cons]
      exact ih h.2 (List.cons_ne_nil t ss)

/-! ## Safe offsets -/

/-- **An offset is safe exactly if it is a boundary that no span is split
at.** -/
theorem isSafe_iff (h : Ordered p.spans) :
    p.isSafe offset = true ↔
      Text.isBoundary p.text offset = true ∧ ∀ s ∈ p.spans, s.splits offset = false := by
  simp only [isSafe, spanAt?_eq_find? h, Bool.and_eq_true, Option.isNone_iff_eq_none,
    List.find?_eq_none, Bool.not_eq_true]

/-- Of two spans in order one ends before the other starts. -/
theorem Ordered.eq_or_apart {ss : List Span} (h : Ordered ss) {s t : Span} (hs : s ∈ ss)
    (ht : t ∈ ss) :
    s = t ∨ (s.closed = true ∧ s.stop ≤ t.start) ∨ (t.closed = true ∧ t.stop ≤ s.start) := by
  induction ss with
  | nil => cases hs
  | cons first ss ih =>
    have hbehind := (List.pairwise_cons.1 h.apart).1
    rcases List.mem_cons.1 hs with hs | hs <;> rcases List.mem_cons.1 ht with ht | ht
    · exact Or.inl (hs.trans ht.symm)
    · exact Or.inr (Or.inl (hs ▸ hbehind t ht))
    · exact Or.inr (Or.inr (ht ▸ hbehind s hs))
    · exact ih h.tail hs ht

/-- No span is split where one of them starts. -/
theorem not_splits_start (h : Ordered p.spans) {s t : Span} (hs : s ∈ p.spans)
    (ht : t ∈ p.spans) : t.splits s.start = false := by
  have hpos := h.nonempty s hs
  rcases h.eq_or_apart hs ht with rfl | ⟨-, hle⟩ | ⟨hclosed, hle⟩
  · simp [Span.splits]
  · have : ¬ t.start < s.start := by omega
    simp [Span.splits, this]
  · have : ¬ s.start < t.stop := by omega
    simp [Span.splits, this, hclosed]

/-- And none where one that is closed ends. -/
theorem not_splits_stop (h : Ordered p.spans) {s t : Span} (hs : s ∈ p.spans)
    (hclosed : s.closed = true) (ht : t ∈ p.spans) : t.splits s.stop = false := by
  have hpos := h.nonempty t ht
  rcases h.eq_or_apart hs ht with rfl | ⟨-, hle⟩ | ⟨hclosed, hle⟩
  · simp [Span.splits, hclosed]
  · have : ¬ t.start < s.stop := by omega
    simp [Span.splits, this]
  · have := h.nonempty s hs
    have : ¬ s.stop < t.stop := by omega
    simp [Span.splits, this, hclosed]

/-- The span at an offset is one of the page. -/
theorem mem_of_spanAt? (h : Ordered p.spans) {s : Span} (hs : p.spanAt? offset = some s) :
    s ∈ p.spans := by
  rw [spanAt?_eq_find? h] at hs
  exact List.mem_of_find?_eq_some hs

/-- **The nearest safe offset before an offset is safe.** -/
theorem isSafe_of_safeBefore? (h : Ordered p.spans) {found : Nat}
    (hfound : p.safeBefore? offset = some found) : p.isSafe found = true := by
  fun_induction safeBefore? p offset with
  | case1 offset s hs hboundary =>
    cases hfound
    exact (isSafe_iff h).2 ⟨hboundary, fun t ht => not_splits_start h (mem_of_spanAt? h hs) ht⟩
  | case2 => cases hfound
  | case3 offset s hs hboundary hpos ih => exact ih hfound
  | case4 offset hnone hboundary =>
    cases hfound
    simp [isSafe, hboundary, hnone]
  | case5 => cases hfound
  | case6 offset hnone hboundary hpos ih => exact ih hfound

/-- **And so is the nearest one after it.** -/
theorem isSafe_of_nearestSafeAfter? (h : Ordered p.spans) {found : Nat}
    (hfound : p.nearestSafeAfter? offset = some found) : p.isSafe found = true := by
  fun_induction nearestSafeAfter? p offset with
  | case1 => cases hfound
  | case2 => cases hfound
  | case3 offset hsize s hs hclosed hboundary =>
    cases hfound
    have hclosed : s.closed = true := by simpa using hclosed
    exact (isSafe_iff h).2
      ⟨hboundary, fun t ht => not_splits_stop h (mem_of_spanAt? h hs) hclosed ht⟩
  | case4 offset hsize s hs hclosed hboundary ih => exact ih hfound
  | case5 offset hsize hnone hboundary =>
    cases hfound
    simp [isSafe, hboundary, hnone]
  | case6 offset hsize hnone hboundary ih => exact ih hfound

end Page

end Trellis
