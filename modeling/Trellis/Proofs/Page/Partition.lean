import Mathlib.Data.List.Chain
import Mathlib.Data.List.Pairwise
import Trellis.Proofs.Page.Restart
/-!
# Page — the spans partition the page

A piece of a page is the construct that stands where the piece starts
(`exists_of_mem_piecesFrom`), and wherever the opening of a construct stands
there is a piece that starts there or holds it (`exists_piece_of_opens`). With
the gaps filled the spans tile the page, so nothing that is plain holds such an
opening (`partition_scan`).
-/

namespace Trellis

namespace Page

variable {offset size start stop : Nat} {cs before rest : List Char} {k : Construct} {s t : Span}
  {ss : List Span}

/-! ## What starts a construct -/

/-- **The openings of constructs**: that of a comment, and a `<` that a letter, an
exclamation mark, a question mark or the slash and first letter of an end tag
follows. -/
inductive Opens : List Char → Prop where
  | comment (rest : List Char) : Opens ("<!--".toList ++ rest)
  | tag {c : Char} (letter : c.isAlpha = true) (rest : List Char) : Opens ('<' :: c :: rest)
  | endTag {c : Char} (letter : c.isAlpha = true) (rest : List Char) :
      Opens ('<' :: '/' :: c :: rest)
  | declaration (rest : List Char) : Opens ('<' :: '!' :: rest)
  | instruction (rest : List Char) : Opens ('<' :: '?' :: rest)

theorem opens_of_startsTag (h : startsTag cs = true) : Opens ('<' :: cs) := by
  unfold startsTag at h
  split at h
  · cases h
  · exact .endTag h _
  · rw [Bool.or_eq_true, Bool.or_eq_true, beq_iff_eq, beq_iff_eq] at h
    rcases h with (hletter | rfl) | rfl
    · exact .tag hletter _
    · exact .declaration _
    · exact .instruction _

/-- **A text starts with a construct exactly if it starts with an opening.** -/
theorem construct?_ne_none_iff : construct? cs ≠ none ↔ Opens cs := by
  constructor
  · intro h
    cases cs with
    | nil => exact absurd rfl h
    | cons c cs =>
      have hc : c = '<' := by
        by_contra hne
        exact h (construct?_eq_none_of_ne hne cs)
      subst hc
      rw [ne_eq, construct?_lt_eq_none_iff, Bool.not_eq_false] at h
      exact opens_of_startsTag h
  · intro h
    cases h with
    | comment => simp [construct?, Text.behind?]
    | tag hletter =>
      rw [ne_eq, construct?_lt_eq_none_iff, Bool.not_eq_false]
      unfold startsTag
      split <;> simp_all
    | endTag hletter => simpa [construct?_lt_eq_none_iff, startsTag] using hletter
    | declaration => simp [construct?_lt_eq_none_iff, startsTag]
    | instruction => simp [construct?_lt_eq_none_iff, startsTag]

/-- A construct is never plain. -/
theorem kind_ne_plain_of_construct? (h : construct? cs = some k) : k.kind ≠ .plain := by
  have hraw {name : List Char} {kind : SpanKind} (hkind : rawKind? name = some kind) :
      kind ≠ .plain := by
    rintro rfl
    revert hkind
    unfold rawKind?
    split_ifs <;> simp
  unfold construct? at h
  split at h
  · split at h
    · cases h
      unfold commentBehind
      split <;> simp
    · split at h
      · cases h
        unfold tagBehind
        split
        · simp
        · dsimp only
          split
          · simp
          · next kind hkind => split <;> exact hraw hkind
      · cases h
  · cases h

/-! ## Pieces where they stand -/

/-- **A piece is the construct that stands where it starts.** -/
theorem exists_of_mem_piecesFrom {piece : Piece} (h : piece ∈ piecesFrom offset cs) :
    ∃ before rest, cs = before ++ (piece.text ++ rest) ∧
      piece.span.start = offset + Text.width before ∧
      piece.span.stop = piece.span.start + Text.width piece.text ∧
      construct? (piece.text ++ rest) =
        some ⟨piece.span.kind, piece.text, rest, piece.span.closed⟩ := by
  fun_induction piecesFrom offset cs with
  | case1 => cases h
  | case2 offset c cs k hk stop ih =>
    have heq := eq_of_construct? hk
    rcases List.mem_cons.1 h with rfl | hmem
    · exact ⟨[], k.rest, heq, rfl, rfl, by rw [← heq, hk]⟩
    · obtain ⟨before, rest, hrest, hstart, hstop, hpiece⟩ := ih hmem
      refine ⟨k.text ++ before, rest, ?_, ?_, hstop, hpiece⟩
      · rw [heq, hrest, List.append_assoc]
      · rw [hstart, Text.width_append]
        simp only [stop]
        omega
  | case3 offset c cs hnone ih =>
    obtain ⟨before, rest, rfl, hstart, hstop, hpiece⟩ := ih h
    refine ⟨c :: before, rest, rfl, ?_, hstop, hpiece⟩
    rw [hstart, Text.width_cons]
    omega

/-- **No construct is missed**: where an opening stands there is a piece that starts
there or holds it. -/
theorem exists_piece_of_opens (offset : Nat) (before : List Char) (h : Opens rest) :
    ∃ piece ∈ piecesFrom offset (before ++ rest),
      piece.span.start ≤ offset + Text.width before ∧
      offset + Text.width before < piece.span.stop := by
  generalize hcs : before ++ rest = cs
  fun_induction piecesFrom offset cs generalizing before with
  | case1 offset =>
    obtain ⟨-, rfl⟩ := List.append_eq_nil_iff.1 hcs
    cases h
  | case2 offset c cs k hk stop ih =>
    by_cases hin : Text.width before < Text.width k.text
    · refine ⟨_, List.mem_cons_self, ?_, ?_⟩
      · simp
      · simp only [stop]
        omega
    · -- the construct ends before the opening, so the scan comes to it later
      obtain ⟨between, rfl, hrest⟩ :=
        exists_append_of_width_le (x := k.text) (y := k.rest) (a := before) (b := rest)
          (by rw [hcs, ← eq_of_construct? hk]) (by omega)
      obtain ⟨piece, hmem, hstart, hstop⟩ := ih between hrest.symm
      rw [Text.width_append, ← Nat.add_assoc]
      exact ⟨piece, List.mem_cons_of_mem _ hmem, hstart, hstop⟩
  | case3 offset c cs hnone ih =>
    cases before with
    | nil =>
      obtain rfl : rest = c :: cs := hcs
      exact absurd hnone (construct?_ne_none_iff.2 h)
    | cons d before =>
      simp only [List.cons_append, List.cons.injEq] at hcs
      obtain ⟨rfl, rfl⟩ := hcs
      obtain ⟨piece, hmem, hstart, hstop⟩ := ih before rfl
      rw [Text.width_cons, ← Nat.add_assoc]
      exact ⟨piece, hmem, hstart, hstop⟩

/-- A piece that is not closed reaches the end of the text. -/
theorem stop_eq_of_not_closed {piece : Piece} (h : piece ∈ piecesFrom offset cs)
    (hopen : piece.span.closed = false) : piece.span.stop = offset + Text.width cs := by
  obtain ⟨before, rest, rfl, hstart, hstop, hpiece⟩ := exists_of_mem_piecesFrom h
  obtain rfl : rest = [] := rest_eq_nil_of_not_closed hpiece hopen
  simp only [List.append_nil, Text.width_append]
  omega

/-- Both ends of a piece are character boundaries. -/
theorem isBoundary_of_mem_piecesFrom {piece : Piece} (h : piece ∈ piecesFrom 0 cs) :
    Text.isBoundary cs piece.span.start = true ∧ Text.isBoundary cs piece.span.stop = true := by
  obtain ⟨before, rest, rfl, hstart, hstop, -⟩ := exists_of_mem_piecesFrom h
  have hstart : piece.span.start = Text.width before := by omega
  have hstop : piece.span.stop = Text.width (before ++ piece.text) := by
    rw [Text.width_append]
    omega
  constructor
  · rw [hstart, Text.isBoundary, Text.cleave?_width, Option.isSome_some]
  · rw [hstop, ← List.append_assoc, Text.isBoundary, Text.cleave?_width, Option.isSome_some]

/-- Only the last of the spans can be open. -/
theorem Ordered.getLast?_of_not_closed (h : Ordered ss) (hs : s ∈ ss) (hopen : s.closed = false) :
    ss.getLast? = some s := by
  obtain ⟨earlier, later, rfl⟩ := List.append_of_mem hs
  cases later with
  | nil => exact List.getLast?_concat
  | cons t later =>
    have hapart := (List.pairwise_append.1 h.apart).2.1
    have hclosed := ((List.pairwise_cons.1 hapart).1 t List.mem_cons_self).1
    rw [hopen] at hclosed
    cases hclosed

/-! ## The gaps filled -/

/-- Tiles that are not empty follow one another. -/
theorem Tiles.le_start (h : Tiles start stop ss) (hpos : ∀ s ∈ ss, s.start < s.stop)
    (hs : s ∈ ss) : start ≤ s.start := by
  induction ss generalizing start with
  | nil => cases hs
  | cons first ss ih =>
    obtain ⟨rfl, hmore⟩ := h
    rcases List.mem_cons.1 hs with rfl | hs
    · exact Nat.le_refl _
    · have hfirst := hpos first List.mem_cons_self
      have hlater := ih hmore (fun t ht => hpos t (List.mem_cons_of_mem first ht)) hs
      omega

/-- **Tiles do not overlap.** -/
theorem Tiles.pairwise (h : Tiles start stop ss) (hpos : ∀ s ∈ ss, s.start < s.stop) :
    ss.Pairwise fun s t => s.stop ≤ t.start := by
  induction ss generalizing start with
  | nil => exact List.Pairwise.nil
  | cons first ss ih =>
    have hpos' : ∀ t ∈ ss, t.start < t.stop := fun t ht => hpos t (List.mem_cons_of_mem first ht)
    exact List.pairwise_cons.2 ⟨fun t ht => h.2.le_start hpos' ht, ih h.2 hpos'⟩

/-- Of two different tiles one ends before the other starts. -/
theorem Tiles.apart (h : Tiles start stop ss) (hpos : ∀ s ∈ ss, s.start < s.stop) (hs : s ∈ ss)
    (ht : t ∈ ss) (hne : s ≠ t) : s.stop ≤ t.start ∨ t.stop ≤ s.start := by
  have hsymm : Std.Symm fun s t : Span => s.stop ≤ t.start ∨ t.stop ≤ s.start :=
    ⟨fun _ _ hapart => hapart.symm⟩
  have hpairs : ss.Pairwise fun s t => s.stop ≤ t.start ∨ t.stop ≤ s.start :=
    (h.pairwise hpos).imp Or.inl
  exact hpairs.forall hs ht hne

/-- Spans within a page, none before an offset. -/
structure Within (size offset : Nat) (ss : List Span) : Prop where
  ordered : Ordered ss
  offset_le : ∀ s ∈ ss, offset ≤ s.start
  le_size : ∀ s ∈ ss, s.stop ≤ size

theorem Within.tail (h : Within size offset (s :: ss)) : Within size s.stop ss where
  ordered := h.ordered.tail
  offset_le t ht := ((List.pairwise_cons.1 h.ordered.apart).1 t ht).2
  le_size t ht := h.le_size t (List.mem_cons_of_mem s ht)

/-- **With the gaps filled the spans tile the page.** -/
theorem tiles_filledFrom (h : Within size offset ss) (hle : offset ≤ size) :
    Tiles offset size (filledFrom size offset ss) := by
  induction ss generalizing offset with
  | nil =>
    rw [filledFrom]
    split
    · exact ⟨rfl, rfl⟩
    · exact Nat.le_antisymm hle (by omega)
  | cons s ss ih =>
    have hmore := ih h.tail (h.le_size s List.mem_cons_self)
    have hlow := h.offset_le s List.mem_cons_self
    rw [filledFrom]
    split
    · exact ⟨rfl, rfl, hmore⟩
    · exact ⟨by omega, hmore⟩

/-- Neither a span nor a gap is empty. -/
theorem start_lt_stop_of_mem_filledFrom (hpos : ∀ s ∈ ss, s.start < s.stop)
    (hs : s ∈ filledFrom size offset ss) : s.start < s.stop := by
  induction ss generalizing offset with
  | nil =>
    rw [filledFrom] at hs
    split at hs
    · next hlt =>
      obtain rfl := List.mem_singleton.1 hs
      exact hlt
    · cases hs
  | cons t ss ih =>
    have hmore : s ∈ t :: filledFrom size t.stop ss → s.start < s.stop := by
      intro hs
      rcases List.mem_cons.1 hs with rfl | hs
      · exact hpos s List.mem_cons_self
      · exact ih (fun u hu => hpos u (List.mem_cons_of_mem t hu)) hs
    rw [filledFrom] at hs
    split at hs
    · next hlt =>
      rcases List.mem_cons.1 hs with rfl | hs
      · exact hlt
      · exact hmore hs
    · exact hmore hs

/-- **No two gaps stand side by side.** -/
theorem isChain_filledFrom (hkinds : ∀ s ∈ ss, s.kind ≠ .plain) :
    (filledFrom size offset ss).IsChain fun s t => ¬ (s.kind = .plain ∧ t.kind = .plain) := by
  induction ss generalizing offset with
  | nil =>
    rw [filledFrom]
    split
    · exact List.isChain_singleton _
    · exact List.isChain_nil
  | cons s ss ih =>
    obtain ⟨hs, hkinds⟩ := List.forall_mem_cons.1 hkinds
    have hmore : (s :: filledFrom size s.stop ss).IsChain
        fun s t => ¬ (s.kind = .plain ∧ t.kind = .plain) :=
      List.IsChain.cons (ih hkinds) fun _ _ hplain => hs hplain.1
    rw [filledFrom]
    split
    · exact List.isChain_cons_cons.2 ⟨fun hplain => hs hplain.2, hmore⟩
    · exact hmore

/-- The gaps are what was filled in. -/
theorem filter_filledFrom (hkinds : ∀ s ∈ ss, s.kind ≠ .plain) :
    (filledFrom size offset ss).filter (fun s => s.kind ≠ .plain) = ss := by
  induction ss generalizing offset with
  | nil =>
    rw [filledFrom]
    split <;> simp
  | cons s ss ih =>
    obtain ⟨hs, hkinds⟩ := List.forall_mem_cons.1 hkinds
    have hmore : (s :: filledFrom size s.stop ss).filter (fun s => s.kind ≠ .plain) = s :: ss := by
      rw [List.filter_cons_of_pos (by simpa using hs), ih hkinds]
    rw [filledFrom]
    split
    · rw [List.filter_cons_of_neg (by simp)]
      exact hmore
    · exact hmore

/-! ## The partition -/

/-- **How the spans of a page divide its text.** -/
structure Partition (html : List Char) (p : Page) : Prop where
  /-- Each span ends before the next one starts. -/
  increasing : p.spans.Pairwise fun s t => s.stop ≤ t.start
  /-- None is empty, and none leaves the page. -/
  bounds : ∀ s ∈ p.spans, s.start < s.stop ∧ s.stop ≤ Text.width html
  /-- They begin and end between characters. -/
  boundaries : ∀ s ∈ p.spans,
    Text.isBoundary html s.start = true ∧ Text.isBoundary html s.stop = true
  /-- Only the last one can be open, and then it ends with the page. -/
  last_of_open : ∀ s ∈ p.spans, s.closed = false →
    p.spans.getLast? = some s ∧ s.stop = Text.width html
  /-- With the gaps filled they tile the page. -/
  tiles : Tiles 0 (Text.width html) p.allSpans
  /-- No tile is empty. -/
  nonempty : ∀ s ∈ p.allSpans, s.start < s.stop
  /-- The tiles are the spans and the gaps between them. -/
  filled : p.allSpans.filter (fun s => s.kind ≠ .plain) = p.spans
  /-- No two gaps stand side by side. -/
  gaps_apart : p.allSpans.IsChain fun s t => ¬ (s.kind = .plain ∧ t.kind = .plain)
  /-- Where a construct opens, a span starts or lies around it. -/
  complete : ∀ before rest, html = before ++ rest → Opens rest → ∃ s ∈ p.spans,
    s.start = Text.width before ∨ s.start < Text.width before ∧ Text.width before < s.stop
  /-- And no gap does. -/
  gaps_plain : ∀ before rest, html = before ++ rest → Opens rest → ∀ s ∈ p.allSpans,
    s.kind = .plain → ¬ (s.start ≤ Text.width before ∧ Text.width before < s.stop)

/-- **The spans of a page partition it.** -/
theorem partition_scan (html : List Char) : Partition html (scan html) := by
  have hordered := ordered_scan html
  have hmem : ∀ s ∈ (scan html).spans, ∃ piece ∈ piecesFrom 0 html, piece.span = s :=
    fun s hs => List.mem_map.1 hs
  have hkinds : ∀ s ∈ (scan html).spans, s.kind ≠ .plain := by
    intro s hs
    obtain ⟨piece, hpiece, rfl⟩ := hmem s hs
    obtain ⟨_, _, -, -, -, hconstruct⟩ := exists_of_mem_piecesFrom hpiece
    exact kind_ne_plain_of_construct? hconstruct
  have hbounds : ∀ s ∈ (scan html).spans, s.start < s.stop ∧ s.stop ≤ Text.width html := by
    intro s hs
    obtain ⟨piece, hpiece, rfl⟩ := hmem s hs
    have := bounds_of_mem_piecesFrom hpiece
    omega
  have hwithin : Within (Text.width html) 0 (scan html).spans :=
    ⟨hordered, fun s _ => Nat.zero_le _, fun s hs => (hbounds s hs).2⟩
  have htiles : Tiles 0 (Text.width html) (scan html).allSpans :=
    tiles_filledFrom hwithin (Nat.zero_le _)
  have hnonempty : ∀ s ∈ (scan html).allSpans, s.start < s.stop := fun s hs =>
    start_lt_stop_of_mem_filledFrom (fun t ht => (hbounds t ht).1) hs
  have hfilled : (scan html).allSpans.filter (fun s => s.kind ≠ .plain) = (scan html).spans :=
    filter_filledFrom hkinds
  have hcomplete : ∀ before rest, html = before ++ rest → Opens rest → ∃ s ∈ (scan html).spans,
      s.start ≤ Text.width before ∧ Text.width before < s.stop := by
    rintro before rest rfl hopens
    obtain ⟨piece, hpiece, hstart, hstop⟩ := exists_piece_of_opens 0 before hopens
    exact ⟨piece.span, List.mem_map.2 ⟨piece, hpiece, rfl⟩, by omega, by omega⟩
  refine ⟨hordered.apart.imp And.right, hbounds, ?_, ?_, htiles, hnonempty, hfilled,
    isChain_filledFrom hkinds, ?_, ?_⟩
  · intro s hs
    obtain ⟨piece, hpiece, rfl⟩ := hmem s hs
    exact isBoundary_of_mem_piecesFrom hpiece
  · intro s hs hopen
    refine ⟨hordered.getLast?_of_not_closed hs hopen, ?_⟩
    obtain ⟨piece, hpiece, rfl⟩ := hmem s hs
    have := stop_eq_of_not_closed hpiece hopen
    omega
  · intro before rest hhtml hopens
    obtain ⟨s, hs, hstart, hstop⟩ := hcomplete before rest hhtml hopens
    exact ⟨s, hs, by omega⟩
  · intro before rest hhtml hopens s hs hplain hin
    obtain ⟨t, ht, hstart, hstop⟩ := hcomplete before rest hhtml hopens
    -- a gap and a span are different tiles, so they cannot both hold the opening
    have hne : s ≠ t := by
      rintro rfl
      exact hkinds s ht hplain
    rw [← hfilled] at ht
    have hapart := htiles.apart hnonempty hs (List.mem_of_mem_filter ht) hne
    omega

end Page

end Trellis
