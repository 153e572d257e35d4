import Trellis.Proofs.Document.Layout
import Trellis.Proofs.Except
/-!
# Document — the scan for passages

Between passages the scan passes over blanks and comments, and nothing else
(`Filler`). What one round of it does is said once (`Scans`), so that what holds
of a whole scan is an induction over rounds. A scan succeeds exactly on the texts
that are layouts with filler around them, and finds each of them where it stands
(`passagesFrom_eq_ok_iff`).
-/

namespace Trellis

namespace Document

variable {place : Location} {cs gap last rest comment behind : List Char} {c : Char}
  {found : List Passage}

/-! ## Between passages -/

/-- **A comment up to the mark of its end**, `-->`. Its text neither holds the mark
nor makes it up with the dashes of the start; where it would, the comment ends
there and is empty. -/
inductive Comment : List Char → Prop where
  | text {text : List Char} (closes : ¬ "-->".toList <:+: text) (starts : ¬ ">".toList <+: text)
      (starts_dashed : ¬ "->".toList <+: text) : Comment ("<!--".toList ++ text)
  | abrupt : Comment "<!".toList
  | abrupt_dashed : Comment "<!-".toList

/-- **What may stand between passages**: blanks and comments. -/
inductive Filler : List Char → Prop where
  | nil : Filler []
  | blank {c : Char} {cs : List Char} (blank : Text.isBlank c = true) (more : Filler cs) :
      Filler (c :: cs)
  | comment {body cs : List Char} (opened : Comment body) (more : Filler cs) :
      Filler (body ++ ("-->".toList ++ cs))

theorem Filler.append (hgap : Filler gap) (hcs : Filler cs) : Filler (gap ++ cs) := by
  induction hgap with
  | nil => exact hcs
  | blank hblank _ ih => exact .blank hblank ih
  | comment hcomment _ ih =>
    rw [List.append_assoc, List.append_assoc]
    exact .comment hcomment ih

theorem unbordered_commentEnd : Text.Unbordered "-->".toList := by
  unfold Text.Unbordered
  decide

/-- The start of a comment and the end behind it share two dashes at most. -/
theorem starts_comment_iff :
    (∃ more, comment ++ ("-->".toList ++ behind) = "<!--".toList ++ more) ↔
      comment = "<!".toList ∨ comment = "<!-".toList ∨
        ∃ text, comment = "<!--".toList ++ text := by
  constructor
  · rintro ⟨more, h⟩
    match comment with
    | [] => simp at h
    | [a] => simp at h
    | [a, b] => simp_all
    | [a, b, c] => simp_all
    | a :: b :: c :: d :: text =>
      refine .inr (.inr ⟨text, ?_⟩)
      simp_all
  · rintro (rfl | rfl | ⟨text, rfl⟩)
    · exact ⟨'>' :: behind, rfl⟩
    · exact ⟨'-' :: '>' :: behind, rfl⟩
    · exact ⟨text ++ ("-->".toList ++ behind), by simp⟩

/-- Where a comment's end does not occur from the comment's start on. -/
theorem absent_from_start_iff {text : List Char} :
    ¬ "-->".toList <:+: "<!--".toList ++ text ↔
      ¬ "-->".toList <:+: text ∧ ¬ ">".toList <+: text ∧ ¬ "->".toList <+: text := by
  simp [List.infix_cons_iff]
  tauto

/-- **What the scan takes for a comment.** -/
theorem cut?_comment_iff :
    Text.startsWith "<!--".toList cs = true ∧ Text.cut? "-->".toList cs = some (comment, behind) ↔
      Comment comment ∧ cs = comment ++ ("-->".toList ++ behind) := by
  rw [Text.cut?_eq_some_iff (by decide) unbordered_commentEnd, Text.startsWith,
    Option.isSome_iff_exists]
  simp only [Text.behind?_eq_some_iff]
  constructor
  · rintro ⟨hstarts, rfl, habsent⟩
    refine ⟨?_, rfl⟩
    rcases starts_comment_iff.1 hstarts with rfl | rfl | ⟨text, rfl⟩
    · exact .abrupt
    · exact .abrupt_dashed
    · obtain ⟨hcloses, hstarts, hdashed⟩ := absent_from_start_iff.1 habsent
      exact .text hcloses hstarts hdashed
  · rintro ⟨hcomment, rfl⟩
    rw [starts_comment_iff]
    cases hcomment with
    | @text text hcloses hstarts hdashed =>
      exact ⟨.inr (.inr ⟨text, rfl⟩), rfl, absent_from_start_iff.2 ⟨hcloses, hstarts, hdashed⟩⟩
    | abrupt => exact ⟨.inl rfl, rfl, by decide⟩
    | abrupt_dashed => exact ⟨.inr (.inl rfl), rfl, by decide⟩

/-! ## Rounds of the scan -/

/-- **What a scan from a place finds**, round by round: it is done, or passes over a
blank or a comment, or takes a passage, or is stopped where it stands. -/
inductive Scans : Location → List Char → Except SourceError (List Passage) → Prop where
  /-- Nothing is left. -/
  | done {place : Location} : Scans place [] (.ok [])
  /-- A blank is passed over. -/
  | blank {place : Location} {c : Char} {cs : List Char}
      {out : Except SourceError (List Passage)} (blank : Text.isBlank c = true)
      (more : Scans (place.step c) cs out) : Scans place (c :: cs) out
  /-- A comment is passed over. -/
  | comment {place : Location} {cs comment behind : List Char}
      {out : Except SourceError (List Passage)}
      (starts : Text.startsWith "<!--".toList ('<' :: cs) = true)
      (cut : Text.cut? "-->".toList ('<' :: cs) = some (comment, behind))
      (more : Scans (place.after (comment ++ "-->".toList)) behind out) : Scans place ('<' :: cs) out
  /-- A comment has no end. -/
  | openComment {place : Location} {cs : List Char}
      (starts : Text.startsWith "<!--".toList ('<' :: cs) = true)
      (cut : Text.cut? "-->".toList ('<' :: cs) = none) :
      Scans place ('<' :: cs) (.error { fault := .malformedTag .openComment, location := place })
  /-- A passage is taken. -/
  | passage {place : Location} {cs : List Char} {taken : Taken}
      {out : Except SourceError (List Passage)}
      (starts : Text.startsWith "<!--".toList ('<' :: cs) = false)
      (takes : takePassage place cs = .ok taken)
      (more : Scans (place.after taken.written) taken.rest out) :
      Scans place ('<' :: cs) (out.map (taken.passage :: ·))
  /-- What begins like a passage is none. -/
  | refused {place : Location} {cs : List Char} {e : SourceError}
      (starts : Text.startsWith "<!--".toList ('<' :: cs) = false)
      (refuses : takePassage place cs = .error e) : Scans place ('<' :: cs) (.error e)
  /-- Nothing of the kind begins here. -/
  | stray {place : Location} {c : Char} {cs : List Char} (blank : Text.isBlank c = false)
      (starts : c ≠ '<') : Scans place (c :: cs) (.error { fault := .strayContent, location := place })

variable {out out' : Except SourceError (List Passage)}

/-- A comment starts like a passage. -/
theorem eq_of_startsWith_comment (h : Text.startsWith "<!--".toList (c :: cs) = true) : c = '<' := by
  obtain ⟨rest, hrest⟩ := Option.isSome_iff_exists.1 h
  exact (List.cons.inj (Text.behind?_eq_some_iff.1 hrest)).1

theorem isBlank_lt : Text.isBlank '<' = false := by
  decide

/-- Blanks are passed over one by one. -/
theorem Scans.blanks (hblank : Text.isBlankText gap = true) (h : Scans (place.after gap) cs out) :
    Scans place (gap ++ cs) out := by
  induction gap generalizing place with
  | nil => exact h
  | cons c gap ih =>
    rw [Text.isBlankText, List.all_cons, Bool.and_eq_true] at hblank
    exact .blank hblank.1 (ih hblank.2 h)

/-- **The scan goes on in rounds.** -/
theorem scans (place : Location) (cs : List Char) : Scans place cs (passagesFrom place cs) := by
  induction hlen : cs.length using Nat.strongRecOn generalizing place cs with
  | ind n ih =>
    rw [passagesFrom]
    split
    · next hrest =>
      obtain ⟨blanks, hblanks, hcs⟩ := Text.exists_of_trimStart cs
      rw [hcs, Text.trimStart, hrest]
      exact Scans.blanks hblanks .done
    · next c rest hrest =>
      obtain ⟨hblank, blanks, hblanks, rfl⟩ := Text.trimStart_eq_cons_iff.1 hrest
      have hhead : ∀ d ∈ (c :: rest).head?, Text.isBlank d = false := by
        intro d hd
        rwa [← Option.some.inj hd]
      rw [(Text.span_append hblanks hhead).1]
      rw [List.length_append] at hlen
      refine Scans.blanks hblanks ?_
      split
      · next hstarts =>
        obtain rfl := eq_of_startsWith_comment hstarts
        split
        · next hcut => exact .openComment hstarts hcut
        · next comment behind hcut =>
          have hshorter := congrArg List.length (Text.eq_of_cut? hcut)
          have hmark : 0 < "-->".toList.length := by decide
          rw [List.length_append, List.length_append] at hshorter
          exact .comment hstarts hcut (ih behind.length (by omega) _ _ rfl)
      · next hstarts =>
        have hstarts := Bool.of_not_eq_true hstarts
        split
        · next hopens =>
          subst hopens
          split
          · next e hrefused => exact .refused hstarts hrefused
          · next taken htaken =>
            have hshorter := congrArg List.length (eq_of_takePassage htaken)
            rw [List.length_append] at hshorter
            have hpos : 0 < taken.written.length := by
              obtain ⟨l, -, rest, -, rfl⟩ := takePassage_eq_ok_iff.1 htaken
              exact Nat.succ_pos _
            have hround := Scans.passage hstarts htaken (ih taken.rest.length (by omega) _ _ rfl)
            split
            · next e hmore =>
              rw [hmore] at hround
              exact hround
            · next more hmore =>
              rw [hmore] at hround
              exact hround
        · next hopens =>
          exact .stray hblank hopens

/-- A round is settled by what the text starts with, and so is the whole scan. -/
theorem Scans.unique (h : Scans place cs out) (h' : Scans place cs out') : out = out' := by
  -- rounds of different kinds ask different things of the first character
  induction h generalizing out' with
  | done =>
    cases h'
    rfl
  | blank hblank _ ih => cases h' <;> grind [isBlank_lt]
  | comment hstarts hcut _ ih => cases h' <;> grind [isBlank_lt]
  | openComment hstarts hcut => cases h' <;> grind [isBlank_lt]
  | passage hstarts htakes _ ih => cases h' <;> grind [isBlank_lt]
  | refused hstarts hrefuses => cases h' <;> grind [isBlank_lt]
  | stray hblank hstarts => cases h' <;> grind

theorem passagesFrom_eq_iff : passagesFrom place cs = out ↔ Scans place cs out := by
  constructor
  · rintro rfl
    exact scans place cs
  · exact fun h => (scans place cs).unique h

/-! ## Texts that are laid out -/

/-- Filler is passed over. -/
theorem Scans.filler (hgap : Filler gap) (h : Scans (place.after gap) cs out) :
    Scans place (gap ++ cs) out := by
  induction hgap generalizing place with
  | nil => exact h
  | blank hblank _ ih => exact .blank hblank (ih h)
  | @comment comment more hcomment _ ih =>
    have hmore : Scans (place.after (comment ++ "-->".toList)) (more ++ cs) out := by
      refine ih ?_
      rwa [← Location.after_append, List.append_assoc]
    obtain ⟨hstarts, hcut⟩ :=
      cut?_comment_iff.2 ⟨hcomment, Eq.refl (comment ++ ("-->".toList ++ (more ++ cs)))⟩
    rw [List.append_assoc, List.append_assoc]
    cases hcs : comment ++ ("-->".toList ++ (more ++ cs)) with
    | nil => simp at hcs
    | cons c cs =>
      rw [hcs] at hstarts hcut
      obtain rfl := eq_of_startsWith_comment hstarts
      exact .comment hstarts hcut hmore

/-- **Passages as they are laid out**, each behind some filler, with filler behind
the last. -/
def writtenAll : List (List Char × Layout) → List Char → List Char
  | [], last => last
  | (gap, l) :: laid, last => gap ++ (l.written ++ writtenAll laid last)

/-- The passages that are laid out, from a place on. -/
def passagesOf (place : Location) : List (List Char × Layout) → List Passage
  | [] => []
  | (gap, l) :: laid =>
    l.passage (place.after gap) :: passagesOf ((place.after gap).after l.written) laid

/-- Legal layouts with filler around them. -/
structure LaidOut (laid : List (List Char × Layout)) (last : List Char) : Prop where
  filled : ∀ p ∈ laid, Filler p.1
  legal : ∀ p ∈ laid, p.2.Legal
  ends : Filler last

variable {laid : List (List Char × Layout)} {l : Layout} {p : Passage}

theorem LaidOut.cons (hgap : Filler gap) (hl : l.Legal) (h : LaidOut laid last) :
    LaidOut ((gap, l) :: laid) last where
  filled := List.forall_mem_cons.2 ⟨hgap, h.filled⟩
  legal := List.forall_mem_cons.2 ⟨hl, h.legal⟩
  ends := h.ends

theorem LaidOut.tail {p : List Char × Layout} (h : LaidOut (p :: laid) last) : LaidOut laid last where
  filled := (List.forall_mem_cons.1 h.filled).2
  legal := (List.forall_mem_cons.1 h.legal).2
  ends := h.ends

/-- Filler in front belongs to the first gap. -/
theorem LaidOut.exists_filler (hgap : Filler gap) (h : LaidOut laid last) (place : Location) :
    ∃ laid' last', LaidOut laid' last' ∧ writtenAll laid' last' = gap ++ writtenAll laid last ∧
      passagesOf place laid' = passagesOf (place.after gap) laid := by
  cases laid with
  | nil => exact ⟨[], gap ++ last, ⟨h.filled, h.legal, hgap.append h.ends⟩, rfl, rfl⟩
  | cons p laid =>
    obtain ⟨first, l⟩ := p
    obtain ⟨hfirst, -⟩ := List.forall_mem_cons.1 h.filled
    obtain ⟨hl, -⟩ := List.forall_mem_cons.1 h.legal
    refine ⟨(gap ++ first, l) :: laid, last, h.tail.cons (hgap.append hfirst) hl, ?_, ?_⟩
    · simp [writtenAll]
    · simp [passagesOf, Location.after_append]

/-- Whatever is laid out is found. -/
theorem LaidOut.scans (h : LaidOut laid last) (place : Location) :
    Scans place (writtenAll laid last) (.ok (passagesOf place laid)) := by
  induction laid generalizing place with
  | nil =>
    have hdone : Scans place (last ++ []) (.ok []) := Scans.filler h.ends .done
    rwa [List.append_nil] at hdone
  | cons p laid ih =>
    obtain ⟨gap, l⟩ := p
    obtain ⟨hgap, -⟩ := List.forall_mem_cons.1 h.filled
    obtain ⟨hl, -⟩ := List.forall_mem_cons.1 h.legal
    refine Scans.filler hgap ?_
    have hmore := ih h.tail ((place.after gap).after l.written)
    have htakes := hl.takePassage_eq (place.after gap) (writtenAll laid last)
    have hstarts := hl.startsWith_comment (writtenAll laid last)
    rw [l.written_append] at hstarts ⊢
    exact .passage hstarts htakes hmore

/-- Whatever is found is laid out. -/
theorem Scans.exists_laidOut (h : Scans place cs out) (hout : out = .ok found) :
    ∃ laid last, LaidOut laid last ∧ cs = writtenAll laid last ∧ found = passagesOf place laid := by
  induction h generalizing found with
  | done =>
    obtain rfl := Except.ok.inj hout
    exact ⟨[], [], ⟨List.forall_mem_nil _, List.forall_mem_nil _, .nil⟩, rfl, rfl⟩
  | @blank place c cs out hblank _ ih =>
    obtain ⟨laid, last, h, rfl, rfl⟩ := ih hout
    obtain ⟨laid', last', h', hwritten, hpassages⟩ := h.exists_filler (.blank hblank .nil) place
    exact ⟨laid', last', h', hwritten.symm, hpassages.symm⟩
  | @comment place cs comment behind out hstarts hcut _ ih =>
    obtain ⟨laid, last, h, rfl, rfl⟩ := ih hout
    obtain ⟨hcomment, hcs⟩ := cut?_comment_iff.1 ⟨hstarts, hcut⟩
    have hfiller : Filler (comment ++ "-->".toList) := by simpa using Filler.comment hcomment .nil
    obtain ⟨laid', last', h', hwritten, hpassages⟩ := h.exists_filler hfiller place
    refine ⟨laid', last', h', ?_, hpassages.symm⟩
    rw [hwritten, hcs, List.append_assoc]
  | openComment => cases hout
  | @passage place cs taken out _ htakes _ ih =>
    obtain ⟨more, rfl, rfl⟩ := Except.map_eq_ok_iff.1 hout
    obtain ⟨laid, last, h, hrest, rfl⟩ := ih rfl
    obtain ⟨l, hl, rest, hcs, rfl⟩ := takePassage_eq_ok_iff.1 htakes
    obtain rfl : rest = writtenAll laid last := hrest
    exact ⟨([], l) :: laid, last, h.cons .nil hl, hcs, rfl⟩
  | refused => cases hout
  | stray => cases hout

/-- **A scan succeeds exactly on what is laid out**, and finds it. -/
theorem passagesFrom_eq_ok_iff :
    passagesFrom place cs = .ok found ↔
      ∃ laid last, LaidOut laid last ∧ cs = writtenAll laid last ∧
        found = passagesOf place laid := by
  constructor
  · intro h
    exact (passagesFrom_eq_iff.1 h).exists_laidOut rfl
  · rintro ⟨laid, last, h, rfl, rfl⟩
    exact passagesFrom_eq_iff.2 (h.scans place)

/-! ## Where a found passage stands -/

/-- A passage that is found is a layout, behind some text and before some. -/
theorem LaidOut.exists_of_mem (h : LaidOut laid last) (hp : p ∈ passagesOf place laid) :
    ∃ (before : List Char) (l : Layout) (behind : List Char), l.Legal ∧
      writtenAll laid last = before ++ (l.written ++ behind) ∧ p = l.passage (place.after before) := by
  induction laid generalizing place with
  | nil => cases hp
  | cons first laid ih =>
    obtain ⟨gap, l⟩ := first
    rcases List.mem_cons.1 hp with rfl | hp
    · obtain ⟨hl, -⟩ := List.forall_mem_cons.1 h.legal
      exact ⟨gap, l, writtenAll laid last, hl, rfl, rfl⟩
    · obtain ⟨before, l', behind, hl', hwritten, rfl⟩ := ih h.tail hp
      refine ⟨gap ++ (l.written ++ before), l', behind, hl', ?_, ?_⟩
      · simp [writtenAll, hwritten]
      · simp [Location.after_append]

/-- What is between the offsets of a passage. -/
theorem Layout.slice?_passage (l : Layout) (before behind : List Char) :
    Text.slice? (l.passage (Location.start.after before)).location.offset
        (l.passage (Location.start.after before)).location.endOffset
        (before ++ (l.written ++ behind)) = some l.written ∧
      Text.slice? (l.passage (Location.start.after before)).contentLocation.offset
        (l.passage (Location.start.after before)).contentLocation.endOffset
        (before ++ (l.written ++ behind)) = some l.content := by
  have hbefore : (Location.start.after before).offset = Text.width before := by
    rw [Location.offset_after]
    exact Nat.zero_add _
  constructor
  · have hslice := Text.slice?_width before l.written behind
    rw [← hbefore] at hslice
    exact hslice
  · have hslice := Text.slice?_width (before ++ l.opening) l.content (closingTag l.tag ++ behind)
    have hstart : ((Location.start.after before).after l.opening).offset =
        Text.width (before ++ l.opening) := by
      rw [Location.offset_after, hbefore, Text.width_append]
    simpa [Layout.passage, Layout.written, Location.upTo, hstart, hbefore] using hslice

theorem offset_le_of_mem_passagesOf (hp : p ∈ passagesOf place laid) :
    place.offset ≤ p.location.offset := by
  induction laid generalizing place with
  | nil => cases hp
  | cons first laid ih =>
    obtain ⟨gap, l⟩ := first
    have hgap : (place.after gap).offset = place.offset + Text.width gap :=
      Location.offset_after place gap
    rcases List.mem_cons.1 hp with rfl | hp
    · have hstart : (l.passage (place.after gap)).location.offset = (place.after gap).offset := rfl
      omega
    · have hlater := ih hp
      rw [Location.offset_after] at hlater
      omega

/-- **The passages stand one behind the other.** -/
theorem pairwise_passagesOf (place : Location) (laid : List (List Char × Layout)) :
    (passagesOf place laid).Pairwise fun p q => p.location.endOffset ≤ q.location.offset := by
  induction laid generalizing place with
  | nil => exact List.Pairwise.nil
  | cons first laid ih =>
    obtain ⟨gap, l⟩ := first
    refine List.pairwise_cons.2 ⟨fun q hq => ?_, ih _⟩
    have hlater := offset_le_of_mem_passagesOf hq
    rwa [Location.offset_after] at hlater

end Document

end Trellis
