import Mathlib.Data.List.Nodup
import Trellis.Proofs.Page.Injection
import Trellis.Proofs.Page.Nearest
/-!
# Page — which place comes first

The spans of a page are in order, so a search from the left finds the tag that starts
first and one from the right the tag that starts last. Every tag starts at a safe offset
and every closed one ends at one; only a tag without its end, which takes the rest of the
page, has to be settled, and then markup goes before it. With that the rules for the early
and the late place can be said by the tags alone (`Earliest`, `Latest`), and the places
that are found are those (`places_of_priority`).
-/

namespace Trellis

namespace Page

/-! ## The first and the last in order -/

section Ends

variable {α : Type} {start : α → Nat} {xs : List α} {test : α → Bool} {x : α}

/-- The one of a property that starts first. -/
structure First (start : α → Nat) (kind : α → Prop) (x : α) : Prop where
  holds : kind x
  start_le : ∀ y, kind y → start x ≤ start y

/-- The one of a property that starts last. -/
structure Last (start : α → Nat) (kind : α → Prop) (x : α) : Prop where
  holds : kind x
  start_le : ∀ y, kind y → start y ≤ start x

/-- **A search through a list in order** finds what no other of the kind comes before. -/
theorem find?_eq_some_iff_of_pairwise {before : α → α → Prop} (h : xs.Pairwise before)
    (hasymm : ∀ x y, before x y → ¬ before y x) :
    xs.find? test = some x ↔
      (x ∈ xs ∧ test x = true) ∧ ∀ y, y ∈ xs ∧ test y = true → ¬ before y x := by
  induction xs with
  | nil => simp
  | cons first xs ih =>
    obtain ⟨hfirst, hrest⟩ := List.pairwise_cons.1 h
    by_cases htest : test first = true
    · rw [List.find?_cons_of_pos htest]
      constructor
      · rintro ⟨⟩
        refine ⟨⟨List.mem_cons_self, htest⟩, ?_⟩
        rintro y ⟨hy, -⟩ hbefore
        rcases List.mem_cons.1 hy with rfl | hy
        · exact hasymm _ _ hbefore hbefore
        · exact hasymm _ _ (hfirst y hy) hbefore
      · rintro ⟨⟨hx, -⟩, hnone⟩
        rcases List.mem_cons.1 hx with rfl | hx
        · rfl
        · exact absurd (hfirst x hx) (hnone first ⟨List.mem_cons_self, htest⟩)
    · rw [List.find?_cons_of_neg htest, ih hrest]
      have hmem (y : α) : y ∈ first :: xs ∧ test y = true ↔ y ∈ xs ∧ test y = true := by
        rw [List.mem_cons]
        constructor
        · rintro ⟨rfl | hy, hty⟩
          · exact absurd hty htest
          · exact ⟨hy, hty⟩
        · rintro ⟨hy, hty⟩
          exact ⟨.inr hy, hty⟩
      simp only [hmem]

theorem find?_eq_some_iff_first (h : xs.Pairwise fun x y => start x < start y) :
    xs.find? test = some x ↔ First start (fun y => y ∈ xs ∧ test y = true) x := by
  rw [find?_eq_some_iff_of_pairwise h fun _ _ => Nat.lt_asymm]
  simp only [Nat.not_lt]
  exact ⟨fun ⟨hx, hle⟩ => ⟨hx, hle⟩, fun ⟨hx, hle⟩ => ⟨hx, hle⟩⟩

theorem find?_reverse_eq_some_iff_last (h : xs.Pairwise fun x y => start x < start y) :
    xs.reverse.find? test = some x ↔ Last start (fun y => y ∈ xs ∧ test y = true) x := by
  have hreverse : xs.reverse.Pairwise fun x y => start y < start x := List.pairwise_reverse.2 h
  rw [find?_eq_some_iff_of_pairwise hreverse fun _ _ => Nat.lt_asymm]
  simp only [Nat.not_lt, List.mem_reverse]
  exact ⟨fun ⟨hx, hle⟩ => ⟨hx, hle⟩, fun ⟨hx, hle⟩ => ⟨hx, hle⟩⟩

end Ends

/-! ## Tags in order -/

variable {html : List Char} {p : Page} {name : String} {closing : Bool} {t u : Tag} {s : Span}
  {r : Region} {close : Option Tag} {start offset : Nat}

/-- **A tag is the tag of a piece of the page.** -/
theorem mem_tags_iff :
    t ∈ p.tags name ↔
      (∃ piece ∈ p.pieces, piece.tag? = some t) ∧
        Text.sameIgnoringCase t.name name.toList = true := by
  simp only [tags, List.mem_filter, List.mem_filterMap]

theorem kind_of_tag? {piece : Piece} (h : piece.tag? = some t) :
    piece.span.kind = .tag ∧ t.span = piece.span := by
  unfold Piece.tag? at h
  split at h
  · next hkind =>
    obtain ⟨-, -, rfl⟩ := Option.map_eq_some_iff.1 h
    exact ⟨hkind, rfl⟩
  · cases h

/-- It takes a span of the page. -/
theorem span_mem_spans (h : t ∈ p.tags name) : t.span ∈ p.spans ∧ t.span.kind = .tag := by
  obtain ⟨⟨piece, hpiece, htag⟩, -⟩ := mem_tags_iff.1 h
  obtain ⟨hkind, hspan⟩ := kind_of_tag? htag
  rw [hspan]
  exact ⟨List.mem_map_of_mem hpiece, hkind⟩

/-- Spans in order start one behind the other. -/
theorem Ordered.pairwise_start {ss : List Span} (h : Ordered ss) :
    ss.Pairwise fun s t => s.start < t.start :=
  h.apart.imp_of_mem fun hs _ hapart => Nat.lt_of_lt_of_le (h.nonempty _ hs) hapart.2

theorem pairwise_pieces (h : Ordered p.spans) :
    p.pieces.Pairwise fun x y => x.span.start < y.span.start := by
  have hspans := h.pairwise_start
  rwa [spans, List.pairwise_map] at hspans

/-- **And so do the tags of a name.** -/
theorem pairwise_tags (h : Ordered p.spans) (name : String) :
    (p.tags name).Pairwise fun t u => t.span.start < u.span.start := by
  refine List.Pairwise.filter _ ((pairwise_pieces h).filterMap _ ?_)
  intro x y hlt t ht u hu
  rwa [(kind_of_tag? ht).2, (kind_of_tag? hu).2]

/-- Two tags of one span are one tag. -/
theorem eq_of_span_eq {other : String} (h : Ordered p.spans) (ht : t ∈ p.tags name)
    (hu : u ∈ p.tags other) (hspan : t.span = u.span) : t = u := by
  obtain ⟨⟨x, hx, htagx⟩, -⟩ := mem_tags_iff.1 ht
  obtain ⟨⟨y, hy, htagy⟩, -⟩ := mem_tags_iff.1 hu
  have hxy : x.span = y.span := by rw [← (kind_of_tag? htagx).2, hspan, (kind_of_tag? htagy).2]
  have hne : p.pieces.Pairwise fun x y => x.span ≠ y.span :=
    (pairwise_pieces h).imp fun hlt heq => Nat.ne_of_lt hlt (congrArg Span.start heq)
  have hsame : x = y := List.inj_on_of_nodup_map (List.pairwise_map.2 hne) hx hy hxy
  rw [hsame, htagy] at htagx
  exact Option.some.inj htagx.symm

/-- So tags of different names have different spans. -/
theorem span_ne_of_names {other : String} (h : Ordered p.spans) (ht : t ∈ p.tags name)
    (hu : u ∈ p.tags other)
    (hnames : name.toList.map Char.toLower ≠ other.toList.map Char.toLower) :
    t.span ≠ u.span := by
  intro hspan
  obtain rfl := eq_of_span_eq h ht hu hspan
  have hname := (mem_tags_iff.1 ht).2
  have hother := (mem_tags_iff.1 hu).2
  simp only [Text.sameIgnoringCase, beq_iff_eq] at hname hother
  exact hnames (hname.symm.trans hother)

/-! ## The tags that are looked for -/

/-- A tag of a name that starts at a place of some kind, as an end tag or not. -/
structure Found (p : Page) (name : String) (closing : Bool) (place : Nat → Prop) (t : Tag) :
    Prop where
  mem : t ∈ p.tags name
  side : t.closing = closing
  place : place t.span.start

/-- The first of them. -/
def FirstTag (p : Page) (name : String) (closing : Bool) (place : Nat → Prop) (t : Tag) : Prop :=
  First (fun t => t.span.start) (Found p name closing place) t

/-- The last of them. -/
def LastTag (p : Page) (name : String) (closing : Bool) (place : Nat → Prop) (t : Tag) : Prop :=
  Last (fun t => t.span.start) (Found p name closing place) t

/-- A script with its end that starts in a region. -/
structure WholeScript (p : Page) (r : Region) (s : Span) : Prop where
  mem : s ∈ p.spans
  kind : s.kind = .script
  closed : s.closed = true
  holds : r.holds s.start = true

theorem found_iff {place : Nat → Prop} :
    Found p name closing place t ↔ t ∈ p.tags name ∧ t.closing = closing ∧ place t.span.start :=
  ⟨fun h => ⟨h.mem, h.side, h.place⟩, fun h => ⟨h.1, h.2.1, h.2.2⟩⟩

theorem found_eq (closing : Bool) (place : Nat → Prop) {test : Tag → Bool}
    (htest : ∀ t ∈ p.tags name, test t = true ↔ t.closing = closing ∧ place t.span.start) :
    (fun t => t ∈ p.tags name ∧ test t = true) = Found p name closing place := by
  funext t
  rw [found_iff, eq_iff_iff]
  exact and_congr_right (htest t)

/-- **The query for a first tag** finds it, -/
theorem firstTag?_eq_some_iff (h : Ordered p.spans) :
    p.firstTag? name closing start = some t ↔ FirstTag p name closing (start ≤ ·) t := by
  rw [firstTag?, find?_eq_some_iff_first (pairwise_tags h name),
    found_eq closing (start ≤ ·) (by simp)]
  exact Iff.rfl

/-- unless there is no such tag. -/
theorem firstTag?_eq_none_iff :
    p.firstTag? name closing start = none ↔ ∀ t, ¬ Found p name closing (start ≤ ·) t := by
  simp only [firstTag?, List.find?_eq_none, found_iff, Bool.and_eq_true, decide_eq_true_eq, not_and]

/-- The search behind the queries for a last tag. -/
theorem find?_reverse_tags_eq_some_iff (h : Ordered p.spans) {place : Nat → Prop}
    {test : Tag → Bool}
    (htest : ∀ t ∈ p.tags name, test t = true ↔ t.closing = closing ∧ place t.span.start) :
    (p.tags name).reverse.find? test = some t ↔ LastTag p name closing place t := by
  rw [find?_reverse_eq_some_iff_last (pairwise_tags h name), found_eq closing place htest]
  exact Iff.rfl

theorem find?_reverse_tags_eq_none_iff {place : Nat → Prop} {test : Tag → Bool}
    (htest : ∀ t ∈ p.tags name, test t = true ↔ t.closing = closing ∧ place t.span.start) :
    (p.tags name).reverse.find? test = none ↔ ∀ t, ¬ Found p name closing place t := by
  rw [← found_eq closing place htest]
  simp only [List.find?_eq_none, List.mem_reverse, not_and]

theorem lastTagEnd?_eq (p : Page) (name : String) (r : Region) :
    p.lastTagEnd? name r =
      ((p.tags name).reverse.find? fun t => !t.closing && r.holds t.span.start).map
        fun t => t.span.stop := by
  rw [lastTagEnd?, List.getLast?_filter]

/-- **The query for the end of a last tag** finds it, -/
theorem lastTagEnd?_eq_some_iff (h : Ordered p.spans) :
    p.lastTagEnd? name r = some offset ↔
      ∃ t, LastTag p name false (fun o => r.holds o) t ∧ t.span.stop = offset := by
  simp only [lastTagEnd?_eq, Option.map_eq_some_iff]
  refine exists_congr fun t => and_congr_left' ?_
  exact find?_reverse_tags_eq_some_iff h (by simp)

/-- unless there is no such tag, -/
theorem lastTagEnd?_eq_none_iff :
    p.lastTagEnd? name r = none ↔ ∀ t, ¬ Found p name false (fun o => r.holds o) t := by
  rw [lastTagEnd?_eq, Option.map_eq_none_iff]
  exact find?_reverse_tags_eq_none_iff (by simp)

theorem mem_ofKind_eq (p : Page) (r : Region) :
    (fun s => s ∈ p.ofKind .script ∧ (s.closed && r.holds s.start) = true) = WholeScript p r := by
  funext s
  rw [eq_iff_iff]
  simp only [ofKind, List.mem_filter, decide_eq_true_eq, Bool.and_eq_true]
  exact ⟨fun ⟨⟨hs, hkind⟩, hclosed, hin⟩ => ⟨hs, hkind, hclosed, hin⟩,
    fun h => ⟨⟨h.mem, h.kind⟩, h.closed, h.holds⟩⟩

/-- and so does the one for the end of a first script. -/
theorem firstScriptEnd?_eq_some_iff (h : Ordered p.spans) :
    p.firstScriptEnd? r = some offset ↔
      ∃ s, First Span.start (WholeScript p r) s ∧ s.stop = offset := by
  have hscripts : (p.ofKind .script).Pairwise fun s t => s.start < t.start :=
    h.pairwise_start.filter _
  simp only [firstScriptEnd?, Option.map_eq_some_iff]
  refine exists_congr fun s => and_congr_left' ?_
  rw [find?_eq_some_iff_first hscripts, mem_ofKind_eq]

theorem firstScriptEnd?_eq_none_iff : p.firstScriptEnd? r = none ↔ ∀ s, ¬ WholeScript p r s := by
  rw [firstScriptEnd?, Option.map_eq_none_iff, List.find?_eq_none, ← mem_ofKind_eq]
  simp only [not_and]

/-! ## The region behind the head's tag -/

/-- Where the region that starts behind the head's tag ends: at the head's end tag or else
at the body's tag or else with the page. -/
inductive RegionEnd (p : Page) (first : Nat) : Option Tag → Nat → Prop where
  | close {t : Tag} (hclose : FirstTag p "head" true (first ≤ ·) t) :
      RegionEnd p first (some t) t.span.start
  | body {t : Tag} (hclose : ∀ t, ¬ Found p "head" true (first ≤ ·) t)
      (hbody : FirstTag p "body" false (first ≤ ·) t) : RegionEnd p first none t.span.start
  | page (hclose : ∀ t, ¬ Found p "head" true (first ≤ ·) t)
      (hbody : ∀ t, ¬ Found p "body" false (first ≤ ·) t) : RegionEnd p first none p.size

/-- **The region of the head**, with its end tag if it has one: behind the first tag of a
head. -/
structure HeadRegion (p : Page) (close : Option Tag) (r : Region) : Prop where
  first : ∃ head, FirstTag p "head" false (0 ≤ ·) head ∧ head.span.stop = r.first
  last : RegionEnd p r.first close r.last

theorem regionEnd_headRegion (h : Ordered p.spans) (head : Tag) :
    RegionEnd p head.span.stop (p.firstTag? "head" true head.span.stop)
      (p.headRegion head).last := by
  unfold headRegion
  dsimp only
  split
  · next close hclose =>
    rw [hclose]
    exact .close ((firstTag?_eq_some_iff h).1 hclose)
  · next hclose =>
    rw [hclose]
    cases hbody : p.firstTag? "body" false head.span.stop with
    | some t => exact .body (firstTag?_eq_none_iff.1 hclose) ((firstTag?_eq_some_iff h).1 hbody)
    | none => exact .page (firstTag?_eq_none_iff.1 hclose) (firstTag?_eq_none_iff.1 hbody)

theorem RegionEnd.unique (h : Ordered p.spans) {head : Tag} {last : Nat}
    (hend : RegionEnd p head.span.stop close last) :
    p.firstTag? "head" true head.span.stop = close ∧ (p.headRegion head).last = last := by
  cases hend with
  | close hclose => simp [headRegion, (firstTag?_eq_some_iff h).2 hclose]
  | body hclose hbody =>
    simp [headRegion, firstTag?_eq_none_iff.2 hclose, (firstTag?_eq_some_iff h).2 hbody]
  | page hclose hbody =>
    simp [headRegion, firstTag?_eq_none_iff.2 hclose, firstTag?_eq_none_iff.2 hbody]

/-- **It is the region in which places are looked for.** -/
theorem headRegion_iff (h : Ordered p.spans) :
    HeadRegion p close r ↔ ∃ head, p.firstTag? "head" false 0 = some head ∧
      p.headRegion head = r ∧ p.firstTag? "head" true r.first = close := by
  constructor
  · rintro ⟨⟨head, hhead, hfirst⟩, hlast⟩
    rw [← hfirst] at hlast ⊢
    obtain ⟨hclose, hlast⟩ := hlast.unique h
    obtain ⟨first, last⟩ := r
    subst hfirst hlast
    exact ⟨head, (firstTag?_eq_some_iff h).2 hhead, rfl, hclose⟩
  · rintro ⟨head, hhead, rfl, rfl⟩
    exact ⟨⟨head, (firstTag?_eq_some_iff h).1 hhead, rfl⟩, regionEnd_headRegion h head⟩

/-! ## Where markup goes at a span -/

/-- Behind a span, or before it if it has no end. -/
def Span.behind (s : Span) : Nat :=
  if s.closed then s.stop else s.start

/-- Markup can go before any span, -/
theorem isSafe_start (hs : s ∈ (scan html).spans) : (scan html).isSafe s.start = true := by
  have h := ordered_scan html
  have hboundary := ((partition_scan html).boundaries s hs).1
  exact (Page.isSafe_iff h).2 ⟨hboundary, fun t ht => not_splits_start h hs ht⟩

/-- and behind one that has its end. -/
theorem isSafe_stop (hs : s ∈ (scan html).spans) (hclosed : s.closed = true) :
    (scan html).isSafe s.stop = true := by
  have h := ordered_scan html
  have hboundary := ((partition_scan html).boundaries s hs).2
  exact (Page.isSafe_iff h).2 ⟨hboundary, fun t ht => not_splits_stop h hs hclosed ht⟩

/-- The end of the page is safe unless a construct lacks its end. -/
theorem isSafe_size_iff :
    (scan html).isSafe (scan html).size = true ↔ ∀ s ∈ (scan html).spans, s.closed = true := by
  have hboundary : Text.isBoundary html (Text.width html) = true :=
    Text.isBoundary_iff.2 ⟨html, [], (List.append_nil html).symm, rfl⟩
  rw [Page.isSafe_iff (ordered_scan html)]
  refine (and_iff_right hboundary).trans (forall₂_congr fun s hs => ?_)
  obtain ⟨hpos, hstop⟩ := (partition_scan html).bounds s hs
  have hstart : s.start < (scan html).size := Nat.lt_of_lt_of_le hpos hstop
  have hsize : ¬ (scan html).size < s.stop := Nat.not_lt.2 hstop
  simp [Span.splits, hstart, hsize]

/-- **The end of a span is settled on as the place behind it.** -/
theorem settled?_stop (hs : s ∈ (scan html).spans) (hin : r.holds s.start = true) :
    (scan html).settled? r s.stop = some s.behind := by
  unfold Span.behind
  split
  · next hclosed => rw [settled?, if_pos (isSafe_stop hs hclosed)]
  · next hopen =>
    have h := ordered_scan html
    have hpos := h.nonempty s hs
    have hsplits : s.splits s.stop = true := Span.splits_iff.2 ⟨hpos, .inr (by simpa using hopen)⟩
    have hunsafe : ¬ (scan html).isSafe s.stop = true := by
      intro hsafe
      have hwhole := ((Page.isSafe_iff h).1 hsafe).2 s hs
      rw [hsplits] at hwhole
      cases hwhole
    -- no safe offset is between the start of the span and its end
    obtain ⟨found, hfound, ⟨hle, hsafe⟩, hgreatest⟩ := (queries_exact html).greatest s.stop
    have hstop : min s.stop (Text.width html) = s.stop :=
      Nat.min_eq_left ((partition_scan html).bounds s hs).2
    rw [hstop] at hle hgreatest
    have hstart : found = s.start :=
      Nat.le_antisymm (le_start_of_splits hsplits (((Page.isSafe_iff h).1 hsafe).2 s hs) hle)
        (hgreatest ⟨Nat.le_of_lt hpos, isSafe_start hs⟩)
    rw [settled?, if_neg hunsafe, hfound, hstart, Option.filter_some, if_pos hin, Option.some_or]

theorem settled?_start (hs : s ∈ (scan html).spans) :
    (scan html).settled? r s.start = some s.start := by
  rw [settled?, if_pos (isSafe_start hs)]

/-- **A span that starts in the head's region ends in it**, unless it is the tag that ends
the region. -/
theorem RegionEnd.behind_le {first last : Nat} (hend : RegionEnd (scan html) first close last)
    (hs : s ∈ (scan html).spans) (hle : s.start ≤ last)
    (hne : ∀ t, t ∈ (scan html).tags "head" ∨ t ∈ (scan html).tags "body" → t.span ≠ s) :
    s.behind ≤ last := by
  unfold Span.behind
  split
  · have h := ordered_scan html
    have hbefore {t : Tag} (ht : t.span ∈ (scan html).spans) (hne : t.span ≠ s)
        (hle : s.start ≤ t.span.start) : s.stop ≤ t.span.start := by
      rcases h.eq_or_apart hs ht with rfl | ⟨-, hapart⟩ | ⟨-, hapart⟩
      · exact absurd rfl hne
      · exact hapart
      · have := h.nonempty _ ht
        omega
    cases hend with
    | close hclose =>
      have hmem := hclose.holds.mem
      exact hbefore (span_mem_spans hmem).1 (hne _ (.inl hmem)) hle
    | body _ hbody =>
      have hmem := hbody.holds.mem
      exact hbefore (span_mem_spans hmem).1 (hne _ (.inr hmem)) hle
    | page => exact ((partition_scan html).bounds s hs).2
  · exact hle

theorem HeadRegion.unique {close' : Option Tag} {r' : Region} (h : Ordered p.spans)
    (hr : HeadRegion p close r) (hr' : HeadRegion p close' r') : close = close' ∧ r = r' := by
  obtain ⟨head, hhead, rfl, rfl⟩ := (headRegion_iff h).1 hr
  obtain ⟨head', hhead', rfl, rfl⟩ := (headRegion_iff h).1 hr'
  rw [hhead, Option.some.injEq] at hhead'
  exact ⟨by rw [hhead'], by rw [hhead']⟩

theorem HeadRegion.holds_behind (hr : HeadRegion (scan html) close r)
    (hs : s ∈ (scan html).spans) (hin : r.holds s.start = true)
    (hne : ∀ t, t ∈ (scan html).tags "head" ∨ t ∈ (scan html).tags "body" → t.span ≠ s) :
    r.holds s.behind = true := by
  have hle : s.start ≤ s.behind := by
    unfold Span.behind
    split
    · exact Nat.le_of_lt ((ordered_scan html).nonempty s hs)
    · exact Nat.le_refl _
  simp only [Region.holds, Bool.and_eq_true, decide_eq_true_eq] at hin ⊢
  exact ⟨Nat.le_trans hin.1 hle, hr.last.behind_le hs hin.2 hne⟩

/-- So the place behind a tag of another name lies in the region, -/
theorem HeadRegion.holds_behind_tag (hr : HeadRegion (scan html) close r)
    (ht : Found (scan html) name closing (fun o => r.holds o) t)
    (hhead : "head".toList.map Char.toLower ≠ name.toList.map Char.toLower)
    (hbody : "body".toList.map Char.toLower ≠ name.toList.map Char.toLower) :
    r.holds t.span.behind = true := by
  refine hr.holds_behind (span_mem_spans ht.mem).1 ht.place ?_
  rintro u (hu | hu)
  · exact span_ne_of_names (ordered_scan html) hu ht.mem hhead
  · exact span_ne_of_names (ordered_scan html) hu ht.mem hbody

/-- and so does the one behind a script, -/
theorem HeadRegion.holds_stop_script (hr : HeadRegion (scan html) close r)
    (hs : WholeScript (scan html) r s) : r.holds s.stop = true := by
  have hbehind : s.behind = s.stop := if_pos hs.closed
  rw [← hbehind]
  refine hr.holds_behind hs.mem hs.holds ?_
  rintro t ht rfl
  have hkind := (ht.elim span_mem_spans span_mem_spans).2
  rw [hs.kind] at hkind
  cases hkind

/-- and the one before the head's end. -/
theorem HeadRegion.holds_close (hr : HeadRegion p (some t) r) : r.holds t.span.start = true := by
  obtain ⟨-, hlast⟩ := hr
  obtain ⟨first, last⟩ := r
  cases hlast with
  | close hclose =>
    have hfirst : first ≤ t.span.start := hclose.holds.place
    simp [Region.holds, hfirst]

/-! ## The early place -/

/-- **The rules for the early place**, by the tags of the page alone. -/
inductive Earliest (p : Page) : Option Nat → Prop where
  /-- Behind the last link of the head. -/
  | link {r : Region} {close : Option Tag} {t : Tag} (hr : HeadRegion p close r)
      (hlink : LastTag p "link" false (fun o => r.holds o) t) : Earliest p (some t.span.behind)
  /-- Else behind its last meta tag. -/
  | metaTag {r : Region} {close : Option Tag} {t : Tag} (hr : HeadRegion p close r)
      (hlink : ∀ t, ¬ Found p "link" false (fun o => r.holds o) t)
      (hmeta : LastTag p "meta" false (fun o => r.holds o) t) : Earliest p (some t.span.behind)
  /-- Else behind its first whole script. -/
  | script {r : Region} {close : Option Tag} {s : Span} (hr : HeadRegion p close r)
      (hlink : ∀ t, ¬ Found p "link" false (fun o => r.holds o) t)
      (hmeta : ∀ t, ¬ Found p "meta" false (fun o => r.holds o) t)
      (hscript : First Span.start (WholeScript p r) s) : Earliest p (some s.stop)
  /-- Else before its end tag. -/
  | close {r : Region} {t : Tag} (hr : HeadRegion p (some t) r)
      (hlink : ∀ t, ¬ Found p "link" false (fun o => r.holds o) t)
      (hmeta : ∀ t, ¬ Found p "meta" false (fun o => r.holds o) t)
      (hscript : ∀ s, ¬ WholeScript p r s) : Earliest p (some t.span.start)
  /-- A head with none of these has no place. -/
  | nowhere {r : Region} (hr : HeadRegion p none r)
      (hlink : ∀ t, ¬ Found p "link" false (fun o => r.holds o) t)
      (hmeta : ∀ t, ¬ Found p "meta" false (fun o => r.holds o) t)
      (hscript : ∀ s, ¬ WholeScript p r s) : Earliest p none
  /-- Without a head, before the body. -/
  | body {t : Tag} (hhead : ∀ t, ¬ Found p "head" false (0 ≤ ·) t)
      (hbody : FirstTag p "body" false (0 ≤ ·) t) : Earliest p (some t.span.start)
  /-- Without a body either there is no place. -/
  | bodiless (hhead : ∀ t, ¬ Found p "head" false (0 ≤ ·) t)
      (hbody : ∀ t, ¬ Found p "body" false (0 ≤ ·) t) : Earliest p none

/-- **The place that is found is the one of the rules.** -/
theorem earliest?_of_earliest {place : Option Nat} (h : Earliest (scan html) place) :
    (scan html).earliest? = place := by
  have hordered := ordered_scan html
  unfold earliest?
  cases h with
  | @link r _ t hr hlink =>
    obtain ⟨head, hhead, rfl, -⟩ := (headRegion_iff hordered).1 hr
    have hend := (lastTagEnd?_eq_some_iff hordered).2 ⟨t, hlink, rfl⟩
    have hsettled := settled?_stop (span_mem_spans hlink.holds.mem).1 hlink.holds.place
    simp [hhead, hend, hsettled]
  | @metaTag r _ t hr hlink hmeta =>
    obtain ⟨head, hhead, rfl, -⟩ := (headRegion_iff hordered).1 hr
    have hend := (lastTagEnd?_eq_some_iff hordered).2 ⟨t, hmeta, rfl⟩
    have hsettled := settled?_stop (span_mem_spans hmeta.holds.mem).1 hmeta.holds.place
    simp [hhead, lastTagEnd?_eq_none_iff.2 hlink, hend, hsettled]
  | @script r _ s hr hlink hmeta hscript =>
    obtain ⟨head, hhead, rfl, -⟩ := (headRegion_iff hordered).1 hr
    have hend := (firstScriptEnd?_eq_some_iff hordered).2 ⟨s, hscript, rfl⟩
    have hsettled := settled?_stop hscript.holds.mem hscript.holds.holds
    rw [Span.behind, if_pos hscript.holds.closed] at hsettled
    simp [hhead, lastTagEnd?_eq_none_iff.2 hlink, lastTagEnd?_eq_none_iff.2 hmeta, hend, hsettled]
  | @close r t hr hlink hmeta hscript =>
    obtain ⟨head, hhead, rfl, hclose⟩ := (headRegion_iff hordered).1 hr
    have hmem := ((firstTag?_eq_some_iff hordered).1 hclose).holds.mem
    have hsettled := settled?_start (r := (scan html).headRegion head) (span_mem_spans hmem).1
    simp [hhead, lastTagEnd?_eq_none_iff.2 hlink, lastTagEnd?_eq_none_iff.2 hmeta,
      firstScriptEnd?_eq_none_iff.2 hscript, hclose, hsettled]
  | @nowhere r hr hlink hmeta hscript =>
    obtain ⟨head, hhead, rfl, hclose⟩ := (headRegion_iff hordered).1 hr
    simp [hhead, lastTagEnd?_eq_none_iff.2 hlink, lastTagEnd?_eq_none_iff.2 hmeta,
      firstScriptEnd?_eq_none_iff.2 hscript, hclose]
  | body hhead hbody =>
    have hsafe := isSafe_start (span_mem_spans hbody.holds.mem).1
    simp [firstTag?_eq_none_iff.2 hhead, (firstTag?_eq_some_iff hordered).2 hbody, hsafe]
  | bodiless hhead hbody =>
    simp [firstTag?_eq_none_iff.2 hhead, firstTag?_eq_none_iff.2 hbody]

/-- One of the rules always applies. -/
theorem exists_earliest (h : Ordered p.spans) : ∃ place, Earliest p place := by
  cases hhead : p.firstTag? "head" false 0 with
  | none =>
    have hnohead := firstTag?_eq_none_iff.1 hhead
    cases hbody : p.firstTag? "body" false 0 with
    | some t => exact ⟨_, .body hnohead ((firstTag?_eq_some_iff h).1 hbody)⟩
    | none => exact ⟨_, .bodiless hnohead (firstTag?_eq_none_iff.1 hbody)⟩
  | some head =>
    have hr := (headRegion_iff h).2 ⟨head, hhead, rfl, rfl⟩
    cases hlink : p.lastTagEnd? "link" (p.headRegion head) with
    | some stop =>
      obtain ⟨t, ht, -⟩ := (lastTagEnd?_eq_some_iff h).1 hlink
      exact ⟨_, .link hr ht⟩
    | none =>
      have hnolink := lastTagEnd?_eq_none_iff.1 hlink
      cases hmeta : p.lastTagEnd? "meta" (p.headRegion head) with
      | some stop =>
        obtain ⟨t, ht, -⟩ := (lastTagEnd?_eq_some_iff h).1 hmeta
        exact ⟨_, .metaTag hr hnolink ht⟩
      | none =>
        have hnometa := lastTagEnd?_eq_none_iff.1 hmeta
        cases hscript : p.firstScriptEnd? (p.headRegion head) with
        | some stop =>
          obtain ⟨s, hs, -⟩ := (firstScriptEnd?_eq_some_iff h).1 hscript
          exact ⟨_, .script hr hnolink hnometa hs⟩
        | none =>
          have hnoscript := firstScriptEnd?_eq_none_iff.1 hscript
          cases hclose : p.firstTag? "head" true (p.headRegion head).first with
          | some t => exact ⟨_, .close (hclose ▸ hr) hnolink hnometa hnoscript⟩
          | none => exact ⟨_, .nowhere (hclose ▸ hr) hnolink hnometa hnoscript⟩

/-- **In a page with a head the early place lies in its region.** -/
theorem Earliest.holds (h : Earliest (scan html) (some offset))
    (hr : HeadRegion (scan html) close r) : r.holds offset = true := by
  have hordered := ordered_scan html
  generalize hplace : some offset = place at h
  cases h with
  | link hr' hlink =>
    cases hplace
    obtain ⟨-, rfl⟩ := hr.unique hordered hr'
    exact hr.holds_behind_tag hlink.holds (by decide) (by decide)
  | metaTag hr' _ hmeta =>
    cases hplace
    obtain ⟨-, rfl⟩ := hr.unique hordered hr'
    exact hr.holds_behind_tag hmeta.holds (by decide) (by decide)
  | script hr' _ _ hscript =>
    cases hplace
    obtain ⟨-, rfl⟩ := hr.unique hordered hr'
    exact hr.holds_stop_script hscript.holds
  | close hr' =>
    cases hplace
    obtain ⟨-, rfl⟩ := hr.unique hordered hr'
    exact hr'.holds_close
  | nowhere => cases hplace
  | body hnohead =>
    obtain ⟨head, hhead, -⟩ := hr.first
    exact absurd hhead.holds (hnohead head)
  | bodiless => cases hplace

/-! ## The late place -/

/-- **The rules for the late place.** -/
inductive Latest (p : Page) : Option Nat → Prop where
  /-- Before the last end tag of a body. -/
  | body {t : Tag} (hbody : LastTag p "body" true (0 ≤ ·) t) : Latest p (some t.span.start)
  /-- Else before that of the page's element. -/
  | element {t : Tag} (hbody : ∀ t, ¬ Found p "body" true (0 ≤ ·) t)
      (helement : LastTag p "html" true (0 ≤ ·) t) : Latest p (some t.span.start)
  /-- Else at the end of the page. -/
  | page (hbody : ∀ t, ¬ Found p "body" true (0 ≤ ·) t)
      (helement : ∀ t, ¬ Found p "html" true (0 ≤ ·) t)
      (hlast : ∀ s, p.spans.getLast? = some s → s.closed = true) : Latest p (some p.size)
  /-- A page whose last construct lacks its end has no place there. -/
  | nowhere {s : Span} (hbody : ∀ t, ¬ Found p "body" true (0 ≤ ·) t)
      (helement : ∀ t, ¬ Found p "html" true (0 ≤ ·) t)
      (hlast : p.spans.getLast? = some s) (hopen : s.closed = false) : Latest p none

/-- The end of a page is safe unless its last construct lacks its end. -/
theorem isSafe_size_iff_getLast? :
    (scan html).isSafe (scan html).size = true ↔
      ∀ s, (scan html).spans.getLast? = some s → s.closed = true := by
  rw [isSafe_size_iff]
  constructor
  · exact fun hall s hlast => hall s (List.mem_of_getLast? hlast)
  · intro hlast s hs
    by_contra hopen
    rw [Bool.not_eq_true] at hopen
    have hclosed := hlast s ((partition_scan html).last_of_open s hs hopen).1
    rw [hopen] at hclosed
    cases hclosed

/-- Every end tag starts at a safe offset. -/
theorem closing_and_isSafe_iff (ht : t ∈ (scan html).tags name) :
    (t.closing && (scan html).isSafe t.span.start) = true ↔
      t.closing = true ∧ 0 ≤ t.span.start := by
  rw [isSafe_start (span_mem_spans ht).1]
  simp

theorem lastClosing?_eq_some_iff :
    (scan html).lastClosing? name = some offset ↔
      ∃ t, LastTag (scan html) name true (0 ≤ ·) t ∧ t.span.start = offset := by
  simp only [lastClosing?, Option.map_eq_some_iff]
  refine exists_congr fun t => and_congr_left' ?_
  exact find?_reverse_tags_eq_some_iff (ordered_scan html) fun t ht => closing_and_isSafe_iff ht

theorem lastClosing?_eq_none_iff :
    (scan html).lastClosing? name = none ↔ ∀ t, ¬ Found (scan html) name true (0 ≤ ·) t := by
  rw [lastClosing?, Option.map_eq_none_iff]
  exact find?_reverse_tags_eq_none_iff fun t ht => closing_and_isSafe_iff ht

/-- **The late place that is found is the one of the rules.** -/
theorem late?_of_latest {place : Option Nat} (h : Latest (scan html) place) :
    (scan html).late? = place := by
  unfold late?
  cases h with
  | @body t hbody => rw [lastClosing?_eq_some_iff.2 ⟨t, hbody, rfl⟩, Option.some_or]
  | @element t hbody helement =>
    rw [lastClosing?_eq_none_iff.2 hbody, lastClosing?_eq_some_iff.2 ⟨t, helement, rfl⟩,
      Option.none_or, Option.some_or]
  | page hbody helement hlast =>
    rw [lastClosing?_eq_none_iff.2 hbody, lastClosing?_eq_none_iff.2 helement, Option.none_or,
      Option.none_or, if_pos (isSafe_size_iff_getLast?.2 hlast)]
  | @nowhere s hbody helement hlast hopen =>
    have hunsafe : ¬ (scan html).isSafe (scan html).size = true := by
      intro hsafe
      have hclosed := isSafe_size_iff_getLast?.1 hsafe s hlast
      rw [hopen] at hclosed
      cases hclosed
    rw [lastClosing?_eq_none_iff.2 hbody, lastClosing?_eq_none_iff.2 helement, Option.none_or,
      Option.none_or, if_neg hunsafe]

theorem exists_latest (html : List Char) : ∃ place, Latest (scan html) place := by
  cases hbody : (scan html).lastClosing? "body" with
  | some offset =>
    obtain ⟨t, ht, -⟩ := lastClosing?_eq_some_iff.1 hbody
    exact ⟨_, .body ht⟩
  | none =>
    have hnobody := lastClosing?_eq_none_iff.1 hbody
    cases helement : (scan html).lastClosing? "html" with
    | some offset =>
      obtain ⟨t, ht, -⟩ := lastClosing?_eq_some_iff.1 helement
      exact ⟨_, .element hnobody ht⟩
    | none =>
      have hnoelement := lastClosing?_eq_none_iff.1 helement
      by_cases hlast : ∀ s, (scan html).spans.getLast? = some s → s.closed = true
      · exact ⟨_, .page hnobody hnoelement hlast⟩
      · simp only [not_forall] at hlast
        obtain ⟨s, hs, hopen⟩ := hlast
        exact ⟨_, .nowhere hnobody hnoelement hs (by simpa using hopen)⟩

/-! ## Both places -/

/-- **Where markup goes in a page** by the rules for the early and the late place. -/
structure Places (p : Page) : Prop where
  /-- The early place is the one of its rules. -/
  early : ∀ place, p.earliest? = place ↔ Earliest p place
  /-- It is safe. -/
  safe : ∀ offset, p.earliest? = some offset → p.isSafe offset = true
  /-- In a page with a head it lies in the head's region. -/
  inside : ∀ close r offset, HeadRegion p close r → p.earliest? = some offset →
    r.first ≤ offset ∧ offset ≤ r.last
  /-- The late place is the one of its rules. -/
  late : ∀ place, p.late? = place ↔ Latest p place

/-- **The places that are found are those of the rules.** -/
theorem places_of_priority (html : List Char) : Places (scan html) := by
  have hordered := ordered_scan html
  have hearly (place : Option Nat) :
      (scan html).earliest? = place ↔ Earliest (scan html) place := by
    refine ⟨?_, earliest?_of_earliest⟩
    rintro rfl
    obtain ⟨place, hplace⟩ := exists_earliest hordered
    rwa [earliest?_of_earliest hplace]
  have hlate (place : Option Nat) : (scan html).late? = place ↔ Latest (scan html) place := by
    refine ⟨?_, late?_of_latest⟩
    rintro rfl
    obtain ⟨place, hplace⟩ := exists_latest html
    rwa [late?_of_latest hplace]
  refine ⟨hearly, fun offset => isSafe_of_earliest? hordered, ?_, hlate⟩
  intro close r offset hr hplace
  have hin := ((hearly _).1 hplace).holds hr
  rwa [Region.holds, Bool.and_eq_true, decide_eq_true_eq, decide_eq_true_eq] at hin

/-- A link without its end takes the rest of the page, so markup goes before it. -/
example : (scan "<head><meta><link rel=>".toList).earliest? = some 23 ∧
    (scan "<head><meta><link href='".toList).earliest? = some 12 := by
  decide +kernel

end Page

end Trellis
