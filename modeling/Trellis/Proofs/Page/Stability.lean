import Trellis.Page.Construct
import Trellis.Proofs.Text.Cut
/-!
# Page — what a construct depends on

A reader of a page looks ahead, so a text put in behind a place could change
what was read before it. It does not: a construct that is closed is settled by
its own text (`construct?_replace`), and a `<` that starts none goes on starting
none if what follows it keeps its first two characters, or is led by a `<`
(`construct?_eq_none_of_led`).
-/

namespace Trellis

namespace Page

variable {name before rest : List Char} {k : Construct}

/-! ## The content that is no markup -/

/-- **What an end tag looks like**: its name in any case, and a character that
ends the name. -/
theorem startsEndTag_iff {cs : List Char} :
    startsEndTag name cs = true ↔
      ∃ shown c more, cs = '<' :: '/' :: (shown ++ c :: more) ∧
        Text.sameIgnoringCase shown name = true ∧ endsName c = true := by
  constructor
  · intro h
    unfold startsEndTag at h
    split at h
    · next cs =>
      rw [Bool.and_eq_true, Option.any_eq_true] at h
      obtain ⟨hsame, c, hc, hends⟩ := h
      obtain ⟨more, hmore⟩ := List.head?_eq_some_iff.1 hc
      refine ⟨cs.take name.length, c, more, ?_, hsame, hends⟩
      rw [← hmore, List.take_append_drop]
    · cases h
  · rintro ⟨shown, c, more, rfl, hsame, hends⟩
    have hlen : shown.length = name.length := by
      simpa using congrArg List.length (beq_iff_eq.1 hsame)
    simp [startsEndTag, ← hlen, hsame, hends]

/-- An end tag is recognised by its name and three characters more. -/
theorem startsEndTag_replace {a : List Char} (hlen : name.length + 3 ≤ a.length)
    (h : startsEndTag name (a ++ rest) = true) (rest' : List Char) :
    startsEndTag name (a ++ rest') = true := by
  obtain ⟨shown, c, more, heq, hsame, hends⟩ := startsEndTag_iff.1 h
  have hshown : shown.length = name.length := by
    simpa using congrArg List.length (beq_iff_eq.1 hsame)
  have hprefix : '<' :: '/' :: (shown ++ [c]) <+: a := by
    refine List.prefix_of_prefix_length_le ⟨more, ?_⟩ (List.prefix_append a rest) ?_
    · rw [heq]
      simp
    · simp only [List.length_cons, List.length_append, List.length_nil]
      omega
  obtain ⟨behind, rfl⟩ := hprefix
  exact startsEndTag_iff.2 ⟨shown, c, behind ++ rest', by simp, hsame, hends⟩

/-- The first `>` of a text that starts with an end tag stands behind the name. -/
theorem length_le_of_startsEndTag (hname : '>' ∉ name.map Char.toLower)
    (h : startsEndTag name (before ++ '>' :: rest) = true) : name.length + 2 ≤ before.length := by
  obtain ⟨shown, c, more, heq, hsame, -⟩ := startsEndTag_iff.1 h
  have hlower : shown.map Char.toLower = name.map Char.toLower := beq_iff_eq.1 hsame
  have hshown : '>' ∉ shown := by
    intro hmem
    exact hname (hlower ▸ List.mem_map.2 ⟨'>', hmem, by decide⟩)
  have hlen : shown.length = name.length := by simpa using congrArg List.length hlower
  by_contra hshort
  -- the `>` would be one of the characters of the end tag's opening or name
  have hmem : '>' ∈ '<' :: '/' :: shown := by
    have hbefore : before ++ ['>'] <+: before ++ '>' :: rest := ⟨rest, by simp⟩
    have hopening : '<' :: '/' :: shown <+: before ++ '>' :: rest := by
      rw [heq]
      exact ⟨c :: more, by simp⟩
    have hprefix : before ++ ['>'] <+: '<' :: '/' :: shown := by
      refine List.prefix_of_prefix_length_le hbefore hopening ?_
      simp only [List.length_cons, List.length_append, List.length_nil]
      omega
    exact hprefix.subset (by simp)
  simp [hshown] at hmem

/-- What ends an element holds an end tag. -/
theorem length_le_of_throughEndTag? {cs : List Char} (hname : '>' ∉ name.map Char.toLower)
    (h : throughEndTag? name cs = some (before, rest)) : name.length + 3 ≤ before.length := by
  induction cs generalizing before with
  | nil => simp [throughEndTag?] at h
  | cons c cs ih =>
    simp only [throughEndTag?] at h
    split at h
    · next hstarts =>
      simp only [Option.map_eq_some_iff, Prod.mk.injEq, Prod.exists] at h
      obtain ⟨b, r, hcut, rfl, rfl⟩ := h
      rw [Text.eq_of_cut? hcut, List.append_assoc] at hstarts
      have := length_le_of_startsEndTag hname hstarts
      simp only [List.length_append, List.length_singleton]
      omega
    · simp only [Option.map_eq_some_iff, Prod.mk.injEq, Prod.exists] at h
      obtain ⟨b, r, hcut, rfl, rfl⟩ := h
      have := ih hcut
      simp only [List.length_cons]
      omega

/-- **An element ends where it ends, whatever follows.** -/
theorem throughEndTag?_replace {cs : List Char} (hname : '>' ∉ name.map Char.toLower)
    (h : throughEndTag? name cs = some (before, rest)) (rest' : List Char) :
    throughEndTag? name (before ++ rest') = some (before, rest') := by
  induction cs generalizing before with
  | nil => simp [throughEndTag?] at h
  | cons c cs ih =>
    have hlen := length_le_of_throughEndTag? hname h
    have heq := eq_of_throughEndTag? h
    simp only [throughEndTag?] at h
    split at h
    · next hstarts =>
      rw [heq] at hstarts
      have hstarts' := startsEndTag_replace hlen hstarts rest'
      simp only [Option.map_eq_some_iff, Prod.mk.injEq, Prod.exists] at h
      obtain ⟨b, r, hcut, rfl, rfl⟩ := h
      have hcut' := Text.cut?_replace hcut rest'
      cases b with
      | nil => simp [startsEndTag] at hstarts'
      | cons d b =>
        simp only [List.cons_append, List.append_assoc] at hstarts' hcut' ⊢
        rw [throughEndTag?, if_pos hstarts', hcut']
        simp
    · next hstarts =>
      simp only [Option.map_eq_some_iff, Prod.mk.injEq, Prod.exists] at h
      obtain ⟨b, r, hcut, rfl, rfl⟩ := h
      have hstarts' : ¬ startsEndTag name (c :: (b ++ rest')) = true := by
        intro hstarts'
        rw [← List.cons_append] at hstarts'
        exact hstarts (heq ▸ startsEndTag_replace hlen hstarts' r)
      rw [List.cons_append, throughEndTag?, if_neg hstarts', ih hcut]
      simp

/-- The names of elements whose content is no markup hold no `>`. -/
theorem not_mem_of_rawKind? {kind : SpanKind} (h : rawKind? name = some kind) :
    '>' ∉ name.map Char.toLower := by
  have hsame {word : String} (hword : '>' ∉ word.toList.map Char.toLower)
      (hs : Text.sameIgnoringCase name word.toList = true) : '>' ∉ name.map Char.toLower := by
    rwa [beq_iff_eq.1 hs]
  unfold rawKind? at h
  split at h
  · next hs => exact hsame (by decide) hs
  · split at h
    · next hs => exact hsame (by decide) hs
    · split at h
      · next hs => exact hsame (by decide) hs
      · split at h
        · next hs => exact hsame (by decide) hs
        · cases h

/-! ## Constructs -/

/-- Whether `<` starts a tag is settled by two characters, and by one unless
that is a slash. -/
theorem startsTag_append {a : List Char} (hne : a ≠ []) (hslash : a ≠ ['/']) (rest' : List Char) :
    startsTag (a ++ rest) = startsTag (a ++ rest') := by
  match a, hne, hslash with
  | [c], _, hslash =>
    have hc : c ≠ '/' := fun e => hslash (by rw [e])
    simp [startsTag, hc]
  | c :: d :: cs, _, _ =>
    by_cases hc : c = '/'
    · simp [startsTag, hc]
    · simp [startsTag, hc]

/-- A comment's opening is one of a tag. -/
theorem startsTag_of_behind? {cs : List Char} (h : Text.behind? "!--".toList cs = some rest) :
    startsTag cs = true := by
  rw [Text.behind?_eq_some_iff.1 h]
  simp [startsTag]

/-- **A `<` starts nothing exactly if it starts no tag.** -/
theorem construct?_lt_eq_none_iff {cs : List Char} :
    construct? ('<' :: cs) = none ↔ startsTag cs = false := by
  simp only [construct?]
  split
  · next inner hinner => simp [startsTag_of_behind? hinner]
  · split <;> simp_all

theorem construct?_eq_none_of_ne {c : Char} (hc : c ≠ '<') (cs : List Char) :
    construct? (c :: cs) = none := by
  unfold construct?
  split
  · next heq => exact absurd (List.cons.inj heq).1 hc
  · rfl

/-- **What starts nothing goes on starting nothing** if it keeps the characters
that settle it. -/
theorem construct?_eq_none_replace {c : Char} {a : List Char} (hne : a ≠ []) (hslash : a ≠ ['/'])
    (h : construct? (c :: (a ++ rest)) = none) (rest' : List Char) :
    construct? (c :: (a ++ rest')) = none := by
  by_cases hc : c = '<'
  · subst hc
    rw [construct?_lt_eq_none_iff] at h ⊢
    rwa [startsTag_append hne hslash rest]
  · exact construct?_eq_none_of_ne hc _

/-- **And it goes on starting nothing before a `<`**, however little of it is
left. -/
theorem construct?_eq_none_of_led {c : Char} {a led : List Char} (hled : led.head? = some '<')
    (h : construct? (c :: (a ++ rest)) = none) : construct? (c :: (a ++ led)) = none := by
  obtain ⟨more, rfl⟩ := List.head?_eq_some_iff.1 hled
  by_cases hc : c = '<'
  · subst hc
    by_cases hne : a = []
    · subst hne
      exact construct?_lt_eq_none_iff.2 (by simp [startsTag])
    · by_cases hslash : a = ['/']
      · subst hslash
        exact construct?_lt_eq_none_iff.2 (by simp [startsTag])
      · exact construct?_eq_none_replace hne hslash h _
  · exact construct?_eq_none_of_ne hc _

/-- A closed comment is settled by its text. -/
theorem commentBehind_replace {cs : List Char} (hclosed : (commentBehind cs).closed = true)
    (rest' : List Char) :
    ∃ inner, (commentBehind cs).text = '<' :: ("!--".toList ++ inner) ∧
      commentBehind (inner ++ rest') = { commentBehind cs with rest := rest' } := by
  cases hcut : Text.cut? "-->".toList cs with
  | none =>
    unfold commentBehind at hclosed
    rw [hcut] at hclosed
    cases hclosed
  | some parts =>
    obtain ⟨inner, rest⟩ := parts
    have hcut' := Text.cut?_replace hcut rest'
    refine ⟨inner ++ "-->".toList, ?_, ?_⟩
    · unfold commentBehind
      rw [hcut]
      simp
    · unfold commentBehind
      rw [hcut, hcut']

/-- A closed tag, or an element that starts with one, is settled by its text. -/
theorem tagBehind_replace {cs : List Char} (hclosed : (tagBehind cs).closed = true)
    (rest' : List Char) :
    ∃ inner behind, (tagBehind cs).text = '<' :: (inner ++ '>' :: behind) ∧
      tagBehind (inner ++ '>' :: (behind ++ rest')) = { tagBehind cs with rest := rest' } := by
  unfold tagBehind at hclosed ⊢
  split at hclosed
  · cases hclosed
  · next inner rest hcut =>
    have hcut' := Text.Quoting.cut?_replace hcut
    dsimp only at hclosed ⊢
    split at hclosed
    · next hraw => exact ⟨inner, [], by simp, by simp [hcut', hraw]⟩
    · next kind hraw =>
      split at hclosed
      · next content rest hend =>
        have hend' := throughEndTag?_replace (not_mem_of_rawKind? hraw) hend rest'
        exact ⟨inner, content, by simp, by simp [hcut', hraw, hend']⟩
      · cases hclosed

/-- A tag that is no comment stays none, whatever follows its `>`. -/
theorem behind?_eq_none_of_gt {inner : List Char}
    (h : Text.behind? "!--".toList (inner ++ '>' :: rest) = none) (rest' : List Char) :
    Text.behind? "!--".toList (inner ++ '>' :: rest') = none := by
  by_cases hlen : 2 ≤ inner.length
  · rw [List.append_cons] at h ⊢
    refine Text.behind?_eq_none_replace ?_ h rest'
    simpa using hlen
  · match inner with
    | [] => simp [Text.behind?]
    | [c] => simp [Text.behind?]
    | c :: d :: more => simp at hlen

/-- **A closed construct is settled by its own text.** -/
theorem construct?_replace {cs : List Char} (h : construct? cs = some k)
    (hclosed : k.closed = true) (rest' : List Char) :
    construct? (k.text ++ rest') = some { k with rest := rest' } := by
  unfold construct? at h
  split at h
  · next cs =>
    split at h
    · next inner hinner =>
      cases h
      obtain ⟨text, htext, hbehind⟩ := commentBehind_replace hclosed rest'
      rw [← hbehind, htext]
      simp [construct?, Text.behind?]
    · next hnone =>
      split at h
      · next hstarts =>
        cases h
        have heq := eq_of_tagBehind cs
        obtain ⟨inner, behind, htext, htag⟩ := tagBehind_replace hclosed rest'
        rw [htext] at heq
        simp only [List.cons_append, List.append_assoc, List.cons.injEq, true_and] at heq
        rw [heq] at hnone hstarts
        have hnone' := behind?_eq_none_of_gt hnone (behind ++ rest')
        have hstarts' : startsTag (inner ++ '>' :: (behind ++ rest')) = true := by
          have hslash : inner ++ ['>'] ≠ ['/'] := by
            intro hends
            simpa using congrArg List.getLast? hends
          rw [List.append_cons] at hstarts ⊢
          rwa [← startsTag_append (by simp) hslash]
        rw [← htag, htext]
        simp only [List.cons_append, List.append_assoc, construct?]
        rw [hnone', if_pos hstarts']
      · cases h
  · cases h

end Page

end Trellis
