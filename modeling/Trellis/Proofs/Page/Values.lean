import Trellis.Proofs.Escape
import Trellis.Proofs.Page.Partition
import Trellis.Proofs.Text.Quoting
/-!
# Page — values shown in a page

A value that is shown escaped holds neither brackets nor quotes. Between the
constructs of a page it is passed over, unless a `<` right before it takes it for
a tag's name; inside of a quoted value it is more of that value. So it changes no
span but the one around it, which grows by its length (`escaped_disturbs_no_span`).
-/

namespace Trellis

namespace Page

open Text.Quoting

variable {a b y value : List Char} {k : Construct} {q : Char} {s : Span}

/-! ## Between constructs -/

/-- A text without a `<` is passed over. -/
theorem piecesFrom_append_of_not_mem (h : '<' ∉ value) (o : Nat) (b : List Char) :
    piecesFrom o (value ++ b) = piecesFrom (o + Text.width value) b := by
  induction value generalizing o with
  | nil => rfl
  | cons c value ih =>
    have hc : c ≠ '<' := fun e => h (e ▸ List.mem_cons_self)
    rw [List.cons_append, piecesFrom_of_none (construct?_eq_none_of_ne hc _),
      ih fun hmem => h (List.mem_cons_of_mem c hmem), Text.width_cons, Nat.add_assoc]

/-- **A text without a `<` put in at a safe place** moves the spans behind it on,
where no `<` stands right before it that it could make the start of a tag. -/
theorem spans_put_text (h : '<' ∉ value) (hlt : ¬ ['<'] <:+ a) (hslash : ¬ ['<', '/'] <:+ a)
    (hsafe : (scan (a ++ b)).isSafe (Text.width a) = true) :
    (scan (a ++ value ++ b)).spans =
      (scan (a ++ b)).spans.filter (fun s => s.stop ≤ Text.width a) ++
        ((scan (a ++ b)).spans.filter (fun s => Text.width a ≤ s.start)).map
          (Span.shift (Text.width value)) := by
  have hsplits := ((isSafe_iff (ordered_scan (a ++ b))).1 hsafe).2
  obtain ⟨before, hstop, hbehind⟩ := exists_pieces_before (Nat.zero_add (Text.width a)).symm
    fun piece hpiece => hsplits piece.span (List.mem_map.2 ⟨piece, hpiece, rfl⟩)
  have hread : ReadBefore before 0 (Text.width a) a b :=
    ⟨hstop, hbehind b (.inl rfl), fun led hled => hbehind led (.inr (.inl hled))⟩
  have hput : piecesFrom 0 (a ++ (value ++ b)) =
      before ++ piecesFrom (Text.width a + Text.width value) b := by
    rw [hbehind (value ++ b) (.inr (.inr ⟨hlt, hslash⟩)), piecesFrom_append_of_not_mem h]
  rw [hread.filter_stop, hread.filter_start, ← map_span_piecesFrom_add, ← List.map_append, ← hput,
    ← List.append_assoc]
  rfl

/-! ## Inside of a quoted value -/

/-- That a text breaks off inside of a quoted value of the tag that a span starts
with. -/
structure Span.InValue (s : Span) (a : List Char) : Prop where
  /-- A comment starts with no tag. -/
  tag : s.kind ≠ .comment
  /-- The tag, read from its `<`, has an open quote where the text breaks off. -/
  inside : ∃ before inner q, a = before ++ '<' :: inner ∧ Text.width before = s.start ∧
    bare.after? Text.isPageBlank inner = some (.inside q)

/-- The name of a tag ends before its first value. -/
theorem tagName_append (h : '=' ∈ y) (rest : List Char) : tagName (y ++ rest) = tagName y := by
  have hshort : (y.takeWhile isTagNameChar).length ≠ y.length := by
    intro hlength
    have hall := List.all_takeWhile (l := y) (p := isTagNameChar)
    rw [(List.takeWhile_prefix isTagNameChar).eq_of_length hlength] at hall
    exact absurd (List.all_eq_true.1 hall '=' h) (by decide)
  rw [tagName, tagName, List.takeWhile_append, if_neg hshort]

/-- **More of a quoted value** makes a tag longer and changes nothing behind it. -/
theorem tagBehind_put (hy : bare.after? Text.isPageBlank y = some (inside q)) (hvalue : q ∉ value)
    (b : List Char) :
    ∃ behind, (tagBehind (y ++ b)).text = '<' :: (y ++ behind) ∧
      tagBehind (y ++ (value ++ b)) =
        { tagBehind (y ++ b) with text := '<' :: (y ++ (value ++ behind)) } := by
  have hinside := cut?_of_after? (after?_inside Text.isPageBlank hvalue) b
  have hname := tagName_append (length_of_after?_bare hy).2
  unfold tagBehind
  rw [cut?_of_after? hy, cut?_of_after? hy, hinside]
  cases hcut : (inside q).cut? Text.isPageBlank b with
  | none => exact ⟨b, rfl, by simp⟩
  | some parts =>
    obtain ⟨inner, rest⟩ := parts
    simp only [Option.map_some, hname]
    cases rawKind? (tagName y) with
    | none => exact ⟨inner ++ ['>'], by simp, by simp⟩
    | some kind =>
      cases throughEndTag? (tagName y) rest with
      | none => exact ⟨inner ++ '>' :: rest, by simp, by simp⟩
      | some parts =>
        obtain ⟨content, rest⟩ := parts
        exact ⟨inner ++ '>' :: content, by simp, by simp⟩

/-- So it makes the construct longer that the tag starts. -/
theorem construct?_put (hy : bare.after? Text.isPageBlank y = some (inside q)) (hvalue : q ∉ value)
    (hk : construct? ('<' :: (y ++ b)) = some k) (hkind : k.kind ≠ .comment) :
    ∃ behind, k.text = '<' :: (y ++ behind) ∧
      construct? ('<' :: (y ++ (value ++ b))) =
        some { k with text := '<' :: (y ++ (value ++ behind)) } := by
  have hnone : Text.behind? "!--".toList (y ++ b) = none := by
    cases hinner : Text.behind? "!--".toList (y ++ b) with
    | none => rfl
    | some inner =>
      refine absurd ?_ hkind
      rw [construct?, hinner] at hk
      cases hk
      unfold commentBehind
      split <;> rfl
  have hstarts : startsTag (y ++ b) = true := by
    rw [← Bool.not_eq_false, ← construct?_lt_eq_none_iff, hk]
    exact Option.some_ne_none k
  -- the tag's first character is none that its value needs, so both are settled by what is there
  have hlength : "!--".toList.length ≤ y.length := by
    have hlead : "!--".toList.length = 3 := by decide
    rw [hlead]
    cases y with
    | nil => cases hy
    | cons c y =>
      have hc : c ≠ '=' := by
        rintro rfl
        simp [startsTag] at hstarts
      rw [after?] at hy
      split at hy
      · cases hy
      · rw [step, if_neg hc] at hy
        have := (length_of_after?_bare hy).1
        rw [List.length_cons]
        omega
  have hnone' := Text.behind?_eq_none_replace hlength hnone (value ++ b)
  have hstarts' : startsTag (y ++ (value ++ b)) = true := by
    have hne : y ≠ [] := by
      rintro rfl
      simp at hlength
    have hslash : y ≠ ['/'] := by
      rintro rfl
      simp at hlength
    rwa [startsTag_append hne hslash b]
  rw [construct?, hnone] at hk
  simp only [hstarts, if_true, Option.some.injEq] at hk
  obtain ⟨behind, htext, htag⟩ := tagBehind_put hy hvalue b
  refine ⟨behind, hk ▸ htext, ?_⟩
  rw [construct?, hnone']
  simp only [hstarts', if_true, htag, hk]

/-- **More of a quoted value** makes the span around it longer, moves those behind
it on and leaves those before it. -/
theorem spans_put_value (hs : s ∈ (scan (a ++ b)).spans) (hin : s.InValue a)
    (hvalue : '"' ∉ value ∧ '\'' ∉ value) :
    ∃ before behind, (scan (a ++ b)).spans = before ++ s :: behind ∧
      (∀ t ∈ before, t.stop ≤ s.start) ∧ s.start < Text.width a ∧ Text.width a ≤ s.stop ∧
      (∀ t ∈ behind, s.stop ≤ t.start) ∧
      (scan (a ++ value ++ b)).spans =
        before ++ { s with stop := s.stop + Text.width value } ::
          behind.map (Span.shift (Text.width value)) := by
  obtain ⟨x, y, q, rfl, hstart, hy⟩ := hin.inside
  have hq : q ∉ value := by
    rcases quote_of_after? (fun _ h => by cases h) hy with rfl | rfl
    · exact hvalue.1
    · exact hvalue.2
  -- the span's start is a safe place, so the scan is taken up at its tag
  have hwhole : (x ++ '<' :: y) ++ b = x ++ '<' :: (y ++ b) := by simp
  have hsafe : (scan (x ++ '<' :: (y ++ b))).isSafe (Text.width x) = true := by
    rw [hwhole] at hs
    refine (isSafe_iff (ordered_scan _)).2 ⟨?_, fun t ht => ?_⟩
    · rw [Text.isBoundary, scan, Text.cleave?_width]
      rfl
    · rw [hstart]
      exact not_splits_start (ordered_scan _) hs ht
  obtain ⟨before, hread⟩ := exists_readBefore_of_isSafe hsafe
  have hscan : (scan ((x ++ '<' :: y) ++ b)).spans =
      before.map Piece.span ++ (piecesFrom (Text.width x) ('<' :: (y ++ b))).map Piece.span := by
    rw [hwhole, spans, scan, hread.rest, List.map_append]
  have hafter : s ∈ (piecesFrom (Text.width x) ('<' :: (y ++ b))).map Piece.span := by
    rw [hscan, List.mem_append] at hs
    refine hs.resolve_left fun hbefore => ?_
    obtain ⟨piece, hpiece, rfl⟩ := List.mem_map.1 hbefore
    have hstop := hread.stop_le piece hpiece
    have hmem : piece ∈ piecesFrom 0 (x ++ '<' :: (y ++ b)) :=
      hread.rest ▸ List.mem_append_left _ hpiece
    have := bounds_of_mem_piecesFrom hmem
    omega
  obtain ⟨piece, hpiece, hspan⟩ := List.mem_map.1 hafter
  cases hk : construct? ('<' :: (y ++ b)) with
  | none =>
    -- then every span would start behind the tag's `<`
    rw [piecesFrom_of_none hk] at hpiece
    have hlater := (bounds_of_mem_piecesFrom hpiece).1
    have hpos := Char.utf8Size_pos '<'
    rw [hspan] at hlater
    omega
  | some k =>
    have hpos := Text.width_pos (text_ne_nil_of_construct? hk)
    have hfirst : s = ⟨Text.width x, Text.width x + Text.width k.text, k.kind, k.closed⟩ := by
      rw [piecesFrom_of_some hk] at hpiece
      rcases List.mem_cons.1 hpiece with rfl | hlater
      · exact hspan.symm
      · have hbounds := (bounds_of_mem_piecesFrom hlater).1
        rw [hspan] at hbounds
        omega
    obtain ⟨behind, htext, hput⟩ := construct?_put hy hq hk (by rw [hfirst] at hin; exact hin.tag)
    have hwidth : Text.width ('<' :: (y ++ (value ++ behind))) =
        Text.width k.text + Text.width value := by
      rw [htext]
      simp only [Text.width_cons, Text.width_append]
      omega
    refine ⟨before.map Piece.span, (piecesFrom s.stop k.rest).map Piece.span, ?_, ?_, ?_, ?_, ?_, ?_⟩
    · rw [hscan, piecesFrom_of_some hk, hfirst]
      rfl
    · intro t ht
      obtain ⟨piece, hpiece, rfl⟩ := List.mem_map.1 ht
      exact hstart ▸ hread.stop_le piece hpiece
    · rw [← hstart, Text.width_append, Text.width_cons]
      have := Char.utf8Size_pos '<'
      omega
    · rw [hfirst, htext]
      simp only [Text.width_cons, Text.width_append]
      omega
    · intro t ht
      obtain ⟨piece, hpiece, rfl⟩ := List.mem_map.1 ht
      exact (bounds_of_mem_piecesFrom hpiece).1
    · have hwhole' : (x ++ '<' :: y) ++ value ++ b = x ++ '<' :: (y ++ (value ++ b)) := by simp
      rw [hwhole', spans, scan, hread.led _ rfl, piecesFrom_of_some hput, ← map_span_piecesFrom_add,
        List.map_append, hfirst, List.map_cons]
      simp only [hwidth, Nat.add_assoc]

/-! ## Escaped values -/

/-- **An escaped value disturbs no span.** At a safe place that no `<` or `</` stands
right before, the spans before it stay and those behind it move on by its length.
Inside of a quoted value the span around it grows by its length and the others do
the same. -/
theorem escaped_disturbs_no_span (a b value : List Char) :
    ((scan (a ++ b)).isSafe (Text.width a) = true → ¬ ['<'] <:+ a → ¬ ['<', '/'] <:+ a →
      (scan (a ++ b)).spans =
        (scan (a ++ b)).spans.filter (fun s => s.stop ≤ Text.width a) ++
          (scan (a ++ b)).spans.filter (fun s => Text.width a ≤ s.start) ∧
      (scan (a ++ Escape.page value ++ b)).spans =
        (scan (a ++ b)).spans.filter (fun s => s.stop ≤ Text.width a) ++
          ((scan (a ++ b)).spans.filter (fun s => Text.width a ≤ s.start)).map
            (Span.shift (Text.width (Escape.page value)))) ∧
    ∀ s ∈ (scan (a ++ b)).spans, s.InValue a →
      ∃ before behind, (scan (a ++ b)).spans = before ++ s :: behind ∧
        (∀ t ∈ before, t.stop ≤ s.start) ∧ s.start < Text.width a ∧ Text.width a ≤ s.stop ∧
        (∀ t ∈ behind, s.stop ≤ t.start) ∧
        (scan (a ++ Escape.page value ++ b)).spans =
          before ++ { s with stop := s.stop + Text.width (Escape.page value) } ::
            behind.map (Span.shift (Text.width (Escape.page value))) := by
  have hlt : '<' ∉ Escape.page value := fun h => (Escape.ne_of_mem_page h).2.2.1 rfl
  have hdouble : '"' ∉ Escape.page value := Escape.quote_not_mem_page value
  have hsingle : '\'' ∉ Escape.page value := fun h => (Escape.ne_of_mem_page h).2.1 rfl
  constructor
  · intro hsafe hlone hslash
    exact ⟨spans_eq_filter_append hsafe, spans_put_text hlt hlone hslash hsafe⟩
  · intro s hs hin
    exact spans_put_value hs hin ⟨hdouble, hsingle⟩

/-- A hostile value, once behind a lone `<` and a blank and once in the title of a
script element, where a bracket and an equals sign stand before it. -/
theorem escaped_disturbs_no_span_hostile :
    ((scan "a < <b></b>".toList).isSafe (Text.width "a < ".toList) = true ∧
      (scan ("a < ".toList ++ Escape.page "</b><script>".toList ++ "<b></b>".toList)).spans =
        [⟨28, 31, .tag, true⟩, ⟨31, 35, .tag, true⟩]) ∧
      ∃ s ∈ (scan "<i><script title=\"> =\">1</script>".toList).spans,
        s.InValue "<i><script title=\"> =".toList ∧
          ∃ before behind,
            (scan "<i><script title=\"> =\">1</script>".toList).spans = before ++ s :: behind ∧
            (scan ("<i><script title=\"> =".toList ++ Escape.page "\">'".toList ++
              "\">1</script>".toList)).spans =
                before ++ { s with stop := s.stop + 15 } :: behind.map (Span.shift 15) := by
  have hsafe : (scan ("a < ".toList ++ "<b></b>".toList)).isSafe (Text.width "a < ".toList) = true := by
    decide +kernel
  have htext := ((escaped_disturbs_no_span "a < ".toList "<b></b>".toList "</b><script>".toList).1
    hsafe (by decide) (by decide)).2
  have hs : ⟨3, 33, .script, true⟩ ∈ (scan "<i><script title=\"> =\">1</script>".toList).spans := by
    decide +kernel
  have hin : Span.InValue ⟨3, 33, .script, true⟩ "<i><script title=\"> =".toList :=
    ⟨by decide, "<i>".toList, "script title=\"> =".toList, '"', by decide, by decide, by decide⟩
  obtain ⟨before, behind, hbefore, -, -, -, -, hafter⟩ :=
    (escaped_disturbs_no_span "<i><script title=\"> =".toList "\">1</script>".toList
      "\">'".toList).2 _ hs hin
  exact ⟨⟨hsafe, htext.trans (by decide +kernel)⟩, _, hs, hin, before, behind, hbefore, hafter⟩

end Page

end Trellis
