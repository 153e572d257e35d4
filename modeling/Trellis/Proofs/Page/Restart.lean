import Trellis.Proofs.Page.Order
import Trellis.Proofs.Page.Stability
/-!
# Page — taking up the scan at a safe offset

A scan remembers nothing: at an offset that no span is split at it starts
afresh (`exists_pieces_before`). So markup can be put in there without touching
what stands around it, provided that it keeps to itself: it is led by a `<`,
which ends whatever a `<` before it might have begun, and its own constructs are
closed and reach its end (`SelfContained`). `spans_put` says what the spans are
then.
-/

namespace Trellis

namespace Page

variable {offset o : Nat} {cs a b : List Char}

/-! ## The text before a safe offset -/

/-- Of two ways to cut a text the one that cuts later goes through the rest of
the other. -/
theorem exists_append_of_width_le {x y : List Char} (heq : x ++ y = a ++ b)
    (hle : Text.width x ≤ Text.width a) : ∃ between, a = x ++ between ∧ y = between ++ b := by
  rcases List.append_eq_append_iff.1 heq with ⟨between, ha, hy⟩ | ⟨between, hx, hb⟩
  · exact ⟨between, ha, hy⟩
  · have hzero : between = [] := by
      by_contra hne
      have := Text.width_pos hne
      rw [hx, Text.width_append] at hle
      omega
    subst hzero
    exact ⟨[], by simpa using hx.symm, by simpa using hb.symm⟩

/-- That no `<` at the end of a text starts anything with the text behind it: that one
is led by a `<` of its own, or there is no such end. -/
def Apart (a behind : List Char) : Prop :=
  behind.head? = some '<' ∨ ¬ ['<'] <:+ a ∧ ¬ ['<', '/'] <:+ a

theorem Apart.of_suffix {behind between : List Char} (h : Apart a behind) (hend : between <:+ a) :
    Apart between behind :=
  h.imp_right fun ⟨hlt, hslash⟩ => ⟨fun h => hlt (h.trans hend), fun h => hslash (h.trans hend)⟩

/-- What starts nothing goes on starting nothing in front of a text that is kept
apart. -/
theorem construct?_eq_none_of_apart {c : Char} {rest behind : List Char}
    (h : Apart (c :: a) behind) (hnone : construct? (c :: (a ++ rest)) = none) :
    construct? (c :: (a ++ behind)) = none := by
  rcases h with hled | ⟨hlt, hslash⟩
  · exact construct?_eq_none_of_led hled hnone
  · by_cases hc : c = '<'
    · subst hc
      have hne : a ≠ [] := fun hnil => hlt (hnil ▸ List.suffix_rfl)
      have hlone : a ≠ ['/'] := fun hlone => hslash (hlone ▸ List.suffix_rfl)
      exact construct?_eq_none_replace hne hlone hnone behind
    · exact construct?_eq_none_of_ne hc _

/-- **The scan is taken up at a safe offset**, and what it read before that does
not depend on what stands behind it, as long as that is kept apart. -/
theorem exists_pieces_before (ho : o = offset + Text.width a)
    (hsafe : ∀ piece ∈ piecesFrom offset (a ++ b), piece.span.splits o = false) :
    ∃ before : List Piece, (∀ piece ∈ before, piece.span.stop ≤ o) ∧
      ∀ behind, behind = b ∨ Apart a behind →
        piecesFrom offset (a ++ behind) = before ++ piecesFrom o behind := by
  generalize hcs : a ++ b = cs at hsafe
  fun_induction piecesFrom offset cs generalizing a with
  | case1 offset =>
    obtain ⟨rfl, rfl⟩ := List.append_eq_nil_iff.1 hcs
    subst ho
    exact ⟨[], by simp, by simp⟩
  | case2 offset c cs k hk stop =>
    rename_i ih
    by_cases ha : a = []
    · subst ha ho
      exact ⟨[], by simp, by simp⟩
    · -- the offset lies behind the start of the construct, so it lies behind its end
      have hpos := Text.width_pos ha
      have hfirst := hsafe _ List.mem_cons_self
      simp only [Span.splits, stop, Bool.and_eq_false_iff, Bool.or_eq_false_iff,
        decide_eq_false_iff_not, Bool.not_eq_false'] at hfirst
      have hwhole : offset + Text.width k.text ≤ o ∧ k.closed = true := by
        rcases hfirst with hstart | ⟨hstop, hclosed⟩
        · omega
        · exact ⟨by omega, hclosed⟩
      obtain ⟨between, rfl, hrest⟩ :=
        exists_append_of_width_le (x := k.text) (y := k.rest) (a := a) (b := b)
          (by rw [hcs, ← eq_of_construct? hk]) (by omega)
      rw [Text.width_append] at ho
      obtain ⟨before, hstop, hbehind⟩ := ih (by simp only [stop]; omega) hrest.symm
        fun piece hpiece => hsafe piece (List.mem_cons_of_mem _ hpiece)
      refine ⟨⟨⟨offset, stop, k.kind, k.closed⟩, k.text⟩ :: before, ?_, ?_⟩
      · intro piece hpiece
        rcases List.mem_cons.1 hpiece with rfl | hpiece
        · exact hwhole.1
        · exact hstop piece hpiece
      · intro behind hapart
        have hbetween : behind = b ∨ Apart between behind :=
          hapart.imp_right fun h => h.of_suffix (List.suffix_append k.text between)
        rw [List.append_assoc, piecesFrom_of_some (construct?_replace hk hwhole.2 _),
          hbehind behind hbetween]
        rfl
  | case3 offset c cs hnone ih =>
    cases a with
    | nil =>
      subst ho
      exact ⟨[], by simp, by simp⟩
    | cons d a =>
      simp only [List.cons_append, List.cons.injEq] at hcs
      obtain ⟨rfl, rfl⟩ := hcs
      rw [Text.width_cons] at ho
      obtain ⟨before, hstop, hbehind⟩ := ih (by omega) rfl hsafe
      refine ⟨before, hstop, ?_⟩
      intro behind hapart
      have hnothing : construct? (d :: (a ++ behind)) = none := by
        rcases hapart with rfl | hapart
        · exact hnone
        · exact construct?_eq_none_of_apart hapart hnone
      rw [List.cons_append, piecesFrom_of_none hnothing,
        hbehind behind (hapart.imp_right fun h => h.of_suffix (List.suffix_cons d a))]

/-- Pieces that a scan reads before an offset, whatever follows there: the text
that is there, or any that is led by a `<`. -/
structure ReadBefore (before : List Piece) (offset o : Nat) (a b : List Char) : Prop where
  /-- They end before the offset. -/
  stop_le : ∀ piece ∈ before, piece.span.stop ≤ o
  /-- They are read before the text that is there. -/
  rest : piecesFrom offset (a ++ b) = before ++ piecesFrom o b
  /-- They are read before any text that is led by a `<`. -/
  led : ∀ led : List Char, led.head? = some '<' →
    piecesFrom offset (a ++ led) = before ++ piecesFrom o led

/-- A text that is led by a `<` is kept apart. -/
theorem exists_readBefore (ho : o = offset + Text.width a)
    (hsafe : ∀ piece ∈ piecesFrom offset (a ++ b), piece.span.splits o = false) :
    ∃ before : List Piece, ReadBefore before offset o a b := by
  obtain ⟨before, hstop, hbehind⟩ := exists_pieces_before ho hsafe
  exact ⟨before, hstop, hbehind b (.inl rfl), fun led hled => hbehind led (.inr (.inl hled))⟩

/-! ## Markup that keeps to itself -/

/-- Markup that keeps to itself: where there is any it is led by a `<`, and its
spans are closed and reach its end. -/
structure SelfContained (markup : List Char) : Prop where
  /-- It is led by a `<`. -/
  led : markup ≠ [] → markup.head? = some '<'
  /-- Its spans are closed. -/
  closed : ∀ s ∈ (scan markup).spans, s.closed = true
  /-- The last of them ends where the markup does. -/
  reaches : markup ≠ [] → (scan markup).spans.getLast?.map Span.stop = some (Text.width markup)

/-- **A text whose constructs are closed and reach its end is read on its own**,
whatever follows. -/
theorem piecesFrom_append (hclosed : ∀ piece ∈ piecesFrom offset cs, piece.span.closed = true)
    (hreaches : cs ≠ [] →
      (piecesFrom offset cs).getLast?.map (fun piece => piece.span.stop) =
        some (offset + Text.width cs)) (b : List Char) :
    piecesFrom offset (cs ++ b) = piecesFrom offset cs ++ piecesFrom (offset + Text.width cs) b := by
  fun_induction piecesFrom offset cs with
  | case1 => simp
  | case2 offset c cs k hk stop ih =>
    have heq := eq_of_construct? hk
    have hwidth := congrArg Text.width heq
    rw [Text.width_append] at hwidth
    have hrest := ih (fun piece hpiece => hclosed piece (List.mem_cons_of_mem _ hpiece)) <| by
      intro hne
      have hpos := Text.width_pos hne
      have hlast := hreaches (List.cons_ne_nil c cs)
      cases hpieces : piecesFrom stop k.rest with
      | nil =>
        -- the construct would be the last one and end before the text does
        rw [hpieces] at hlast
        simp only [List.getLast?_singleton, Option.map_some, Option.some.injEq, stop] at hlast
        omega
      | cons piece pieces =>
        rw [hpieces, List.getLast?_cons_cons] at hlast
        rw [hlast]
        simp only [stop, Option.some.injEq]
        omega
    have hk' := construct?_replace hk (hclosed _ List.mem_cons_self) (k.rest ++ b)
    rw [heq, List.append_assoc, piecesFrom_of_some hk', hrest, ← heq, hwidth]
    simp only [stop, List.cons_append, Nat.add_assoc]
  | case3 offset c cs hnone ih =>
    have hlast := hreaches (List.cons_ne_nil c cs)
    rw [Text.width_cons, ← Nat.add_assoc] at hlast ⊢
    have hne : cs ≠ [] := by
      rintro rfl
      simp at hlast
    have hslash : cs ≠ ['/'] := by
      rintro rfl
      rw [piecesFrom_of_none (construct?_eq_none_of_ne (by decide) [])] at hlast
      simp at hlast
    have hnone' : construct? (c :: (cs ++ [])) = none := by rwa [List.append_nil]
    rw [List.cons_append, piecesFrom_of_none (construct?_eq_none_replace hne hslash hnone' b),
      ih hclosed fun _ => hlast]

/-! ## What is read where markup was put in -/

/-- A span moved on by a number of bytes. -/
def Span.shift (n : Nat) (s : Span) : Span :=
  { s with start := s.start + n, stop := s.stop + n }

/-- **A text further on is read the same way**, with its spans moved on. -/
theorem map_span_piecesFrom_add (n offset : Nat) (cs : List Char) :
    (piecesFrom (offset + n) cs).map Piece.span =
      ((piecesFrom offset cs).map Piece.span).map (Span.shift n) := by
  fun_induction piecesFrom offset cs with
  | case1 => simp
  | case2 offset c cs k hk stop ih =>
    have hstop : offset + n + Text.width k.text = stop + n := by
      simp only [stop]
      omega
    rw [piecesFrom_of_some hk, List.map_cons, hstop, ih]
    rfl
  | case3 offset c cs hnone ih =>
    have hstop : offset + n + c.utf8Size = offset + c.utf8Size + n := by omega
    rw [piecesFrom_of_none hnone, hstop, ih]

/-- A safe place cuts the scan in two. -/
theorem exists_readBefore_of_isSafe (hsafe : (scan (a ++ b)).isSafe (Text.width a) = true) :
    ∃ before : List Piece, ReadBefore before 0 (Text.width a) a b := by
  have hsplits := ((isSafe_iff (ordered_scan (a ++ b))).1 hsafe).2
  exact exists_readBefore (by omega) fun piece hpiece =>
    hsplits piece.span (List.mem_map.2 ⟨piece, hpiece, rfl⟩)

namespace ReadBefore

variable {before : List Piece}

/-- What was read before the place are the spans that end there or before. -/
theorem filter_stop (h : ReadBefore before 0 o a b) :
    (scan (a ++ b)).spans.filter (fun s => s.stop ≤ o) = before.map Piece.span := by
  have hbefore : (before.map Piece.span).filter (fun s => s.stop ≤ o) = before.map Piece.span := by
    refine List.filter_eq_self.2 fun s hs => ?_
    obtain ⟨piece, hpiece, rfl⟩ := List.mem_map.1 hs
    exact decide_eq_true (h.stop_le piece hpiece)
  have hbehind : ((piecesFrom o b).map Piece.span).filter (fun s => s.stop ≤ o) = [] := by
    refine List.filter_eq_nil_iff.2 fun s hs => ?_
    obtain ⟨piece, hpiece, rfl⟩ := List.mem_map.1 hs
    have := bounds_of_mem_piecesFrom hpiece
    simp only [decide_eq_true_eq]
    omega
  simp only [spans, scan, h.rest, List.map_append, List.filter_append, hbefore, hbehind,
    List.append_nil]

/-- What is read behind the place are the spans that start there or later. -/
theorem filter_start (h : ReadBefore before 0 o a b) :
    (scan (a ++ b)).spans.filter (fun s => o ≤ s.start) = (piecesFrom o b).map Piece.span := by
  have hbefore : (before.map Piece.span).filter (fun s => o ≤ s.start) = [] := by
    refine List.filter_eq_nil_iff.2 fun s hs => ?_
    obtain ⟨piece, hpiece, rfl⟩ := List.mem_map.1 hs
    have hstop := h.stop_le piece hpiece
    have hmem : piece ∈ piecesFrom 0 (a ++ b) := h.rest ▸ List.mem_append_left _ hpiece
    have := bounds_of_mem_piecesFrom hmem
    simp only [decide_eq_true_eq]
    omega
  have hbehind : ((piecesFrom o b).map Piece.span).filter (fun s => o ≤ s.start) =
      (piecesFrom o b).map Piece.span := by
    refine List.filter_eq_self.2 fun s hs => ?_
    obtain ⟨piece, hpiece, rfl⟩ := List.mem_map.1 hs
    exact decide_eq_true (bounds_of_mem_piecesFrom hpiece).1
  simp only [spans, scan, h.rest, List.map_append, List.filter_append, hbefore, hbehind,
    List.nil_append]

end ReadBefore

/-- **No span reaches over a safe place.** -/
theorem spans_eq_filter_append (hsafe : (scan (a ++ b)).isSafe (Text.width a) = true) :
    (scan (a ++ b)).spans =
      (scan (a ++ b)).spans.filter (fun s => s.stop ≤ Text.width a) ++
        (scan (a ++ b)).spans.filter (fun s => Text.width a ≤ s.start) := by
  obtain ⟨before, h⟩ := exists_readBefore_of_isSafe hsafe
  rw [h.filter_stop, h.filter_start, ← List.map_append, ← h.rest]
  rfl

/-- Markup that keeps to itself is read on its own behind any text. -/
theorem SelfContained.piecesFrom_append {markup : List Char} (hm : SelfContained markup) :
    (piecesFrom o (markup ++ b)).map Piece.span =
      (scan markup).spans.map (Span.shift o) ++
        ((piecesFrom o b).map Piece.span).map (Span.shift (Text.width markup)) := by
  have hspans : (piecesFrom o markup).map Piece.span = (scan markup).spans.map (Span.shift o) := by
    have hmoved := map_span_piecesFrom_add o 0 markup
    rwa [Nat.zero_add] at hmoved
  have hclosed : ∀ piece ∈ piecesFrom o markup, piece.span.closed = true := by
    intro piece hpiece
    have hmem : piece.span ∈ (scan markup).spans.map (Span.shift o) :=
      hspans ▸ List.mem_map.2 ⟨piece, hpiece, rfl⟩
    obtain ⟨s, hs, hshift⟩ := List.mem_map.1 hmem
    rw [← hshift]
    exact hm.closed s hs
  have hreaches : markup ≠ [] →
      (piecesFrom o markup).getLast?.map (fun piece => piece.span.stop) =
        some (o + Text.width markup) := by
    intro hne
    obtain ⟨s, hs, hstop⟩ := Option.map_eq_some_iff.1 (hm.reaches hne)
    have hlast : ((piecesFrom o markup).map Piece.span).getLast? = some (s.shift o) := by
      rw [hspans, List.getLast?_map, hs]
      rfl
    rw [List.getLast?_map] at hlast
    obtain ⟨piece, hpiece, hshift⟩ := Option.map_eq_some_iff.1 hlast
    rw [hpiece, Option.map_some, hshift]
    simp only [Span.shift, hstop, Nat.add_comm]
  rw [Page.piecesFrom_append hclosed hreaches, List.map_append, hspans, map_span_piecesFrom_add]

/-- **Where markup that keeps to itself was put in at a safe place**, its spans
stand between those before and those behind, and nothing else has changed. -/
theorem spans_put {markup : List Char} (hm : SelfContained markup)
    (hsafe : (scan (a ++ b)).isSafe (Text.width a) = true) :
    (scan (a ++ markup ++ b)).spans =
      (scan (a ++ b)).spans.filter (fun s => s.stop ≤ Text.width a) ++
        (scan markup).spans.map (Span.shift (Text.width a)) ++
        ((scan (a ++ b)).spans.filter (fun s => Text.width a ≤ s.start)).map
          (Span.shift (Text.width markup)) := by
  obtain ⟨before, h⟩ := exists_readBefore_of_isSafe hsafe
  rw [h.filter_stop, h.filter_start, List.append_assoc, List.append_assoc]
  have hput : piecesFrom 0 (a ++ (markup ++ b)) =
      before ++ piecesFrom (Text.width a) (markup ++ b) := by
    by_cases hne : markup = []
    · subst hne
      exact h.rest
    · refine h.led (markup ++ b) ?_
      rw [List.head?_append_of_ne_nil _ hne]
      exact hm.led hne
  rw [← hm.piecesFrom_append, ← List.map_append, ← hput]
  rfl

end Page

end Trellis
