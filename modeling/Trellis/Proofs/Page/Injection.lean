import Trellis.Page.Inject
import Trellis.Proofs.Page.Restart
/-!
# Page — an injection disturbs nothing

Whatever rule chooses the place for markup, the place is a safe offset
(`isSafe_of_place?`), and what keeps to itself disturbs nothing there. So an
injection that finds no place leaves the page as it is, and one that does adds
the markup's spans to those of the page and changes no other.
-/

namespace Trellis

namespace Page

variable {p : Page} {offset : Nat}

/-! ## The chosen place is safe -/

/-- A candidate is settled on a safe offset. -/
theorem isSafe_of_settled? (h : Ordered p.spans) {r : Region} {candidate : Nat}
    (hsettled : p.settled? r candidate = some offset) : p.isSafe offset = true := by
  unfold settled? at hsettled
  split at hsettled
  · next hsafe =>
    cases hsettled
    exact hsafe
  · rw [Option.or_eq_some_iff] at hsettled
    rcases hsettled with hbefore | ⟨-, hafter⟩
    · exact isSafe_of_safeBefore? h (Option.filter_eq_some_iff.1 hbefore).1
    · exact isSafe_of_nearestSafeAfter? h (Option.filter_eq_some_iff.1 hafter).1

/-- The earliest place is safe. -/
theorem isSafe_of_earliest? (h : Ordered p.spans) (hearliest : p.earliest? = some offset) :
    p.isSafe offset = true := by
  unfold earliest? at hearliest
  split at hearliest
  · exact (Option.filter_eq_some_iff.1 hearliest).2
  · obtain ⟨candidate, -, hcandidate⟩ := List.exists_of_findSome?_eq_some hearliest
    obtain ⟨start, -, hsettled⟩ := Option.bind_eq_some_iff.1 hcandidate
    exact isSafe_of_settled? h hsettled

/-- The end tag before which markup goes late starts at a safe offset. -/
theorem isSafe_of_lastClosing? {name : String} (hlast : p.lastClosing? name = some offset) :
    p.isSafe offset = true := by
  obtain ⟨tag, htag, rfl⟩ := Option.map_eq_some_iff.1 hlast
  have hfound := List.find?_some htag
  rw [Bool.and_eq_true] at hfound
  exact hfound.2

/-- The late place is safe. -/
theorem isSafe_of_late? (hlate : p.late? = some offset) : p.isSafe offset = true := by
  simp only [late?, Option.or_eq_some_iff] at hlate
  rcases hlate with hbody | ⟨-, hhtml | ⟨-, hend⟩⟩
  · exact isSafe_of_lastClosing? hbody
  · exact isSafe_of_lastClosing? hhtml
  · split at hend
    · next hsafe =>
      cases hend
      exact hsafe
    · cases hend

/-- Also as a place with its rule. -/
theorem Injector.isSafe_of_latePlace? {place : Place} (hlate : latePlace? p = some place) :
    p.isSafe place.offset = true := by
  obtain ⟨offset, hoffset, rfl⟩ := Option.map_eq_some_iff.1 hlate
  exact isSafe_of_late? hoffset

/-- A mount point that is called safe is the start of a tag that a find stands in. -/
theorem exists_of_mountAmong {m : MountPoint} {offsets : List Nat} {unsafeFind : Option MountPoint}
    (hnotsafe : ∀ find ∈ unsafeFind, find.safe = false)
    (hmount : mountAmong p unsafeFind offsets = some m) (hsafe : m.safe = true) :
    ∃ o ∈ offsets, ∃ s, p.spanAt? (o + 1) = some s ∧ s.kind = .tag ∧
      m = ⟨s.start, p.isSafe s.start⟩ := by
  induction offsets generalizing unsafeFind with
  | nil =>
    rw [hnotsafe m hmount] at hsafe
    cases hsafe
  | cons offset offsets ih =>
    have hlater {unsafeFind : Option MountPoint}
        (hnotsafe : ∀ find ∈ unsafeFind, find.safe = false)
        (hmount : mountAmong p unsafeFind offsets = some m) :
        ∃ o ∈ offset :: offsets, ∃ s, p.spanAt? (o + 1) = some s ∧ s.kind = .tag ∧
          m = ⟨s.start, p.isSafe s.start⟩ := by
      obtain ⟨o, ho, hspan⟩ := ih hnotsafe hmount
      exact ⟨o, List.mem_cons_of_mem offset ho, hspan⟩
    rw [mountAmong] at hmount
    split at hmount
    · exact hlater hnotsafe hmount
    · next s hs =>
      split at hmount
      · next hkind => exact ⟨offset, List.mem_cons_self, s, hs, hkind, (Option.some.inj hmount).symm⟩
      · refine hlater ?_ hmount
        intro find hfind
        rcases Option.or_eq_some_iff.1 hfind with hfind | ⟨-, hfind⟩
        · exact hnotsafe find hfind
        · cases hfind
          rfl

/-- So it is safe. -/
theorem isSafe_of_mountAmong {m : MountPoint} (offsets : List Nat) (unsafeFind : Option MountPoint)
    (hnotsafe : ∀ find ∈ unsafeFind, find.safe = false)
    (hmount : mountAmong p unsafeFind offsets = some m) (hsafe : m.safe = true) :
    p.isSafe m.offset = true := by
  obtain ⟨o, -, s, -, -, rfl⟩ := exists_of_mountAmong hnotsafe hmount hsafe
  exact hsafe

namespace Injector

/-- The place that a strategy prefers is safe. -/
theorem isSafe_of_preferred? (h : Ordered p.spans) {i : Injector} {place : Place}
    (hpreferred : i.preferred? p = some place) : p.isSafe place.offset = true := by
  unfold preferred? at hpreferred
  split at hpreferred
  · obtain ⟨offset, hearliest, rfl⟩ := Option.map_eq_some_iff.1 hpreferred
    exact isSafe_of_earliest? h hearliest
  · obtain ⟨m, hmount, rfl⟩ := Option.map_eq_some_iff.1 hpreferred
    obtain ⟨hpoint, hsafe⟩ := Option.filter_eq_some_iff.1 hmount
    unfold mountPoint? at hpoint
    split at hpoint
    · cases hpoint
    · exact isSafe_of_mountAmong _ none (by simp) hpoint hsafe
  · exact isSafe_of_latePlace? hpreferred

/-- **Whatever rule chose it, the place is safe.** -/
theorem isSafe_of_place? (h : Ordered p.spans) {i : Injector} {excluded : Bool} {place : Place}
    (hplace : i.place? p excluded = some place) : p.isSafe place.offset = true := by
  rw [place?, Option.or_eq_some_iff] at hplace
  rcases hplace with hpreferred | ⟨-, hlate⟩
  · split at hpreferred
    · cases hpreferred
    · exact isSafe_of_preferred? h hpreferred
  · split at hlate
    · exact isSafe_of_latePlace? hlate
    · cases hlate

end Injector

/-! ## What is put in there -/

/-- **At a safe offset the page is cut in two and the markup stands between the
parts.** -/
theorem exists_splice_of_isSafe {html : List Char} (hsafe : (scan html).isSafe offset = true)
    (markup : List Char) :
    ∃ before rest, html = before ++ rest ∧ Text.width before = offset ∧
      splice html offset markup = before ++ markup ++ rest := by
  rw [isSafe, Bool.and_eq_true] at hsafe
  obtain ⟨⟨before, rest⟩, hcut⟩ := Option.isSome_iff_exists.1 hsafe.1
  obtain ⟨htext, hwidth⟩ := Text.eq_of_cleave? hcut
  refine ⟨before, rest, htext, hwidth, ?_⟩
  have hcut : Text.cleave? offset html = some (before, rest) := hcut
  rw [splice, hcut]

/-- **An injection disturbs nothing.** Without a place the page stays as it is.
With one the place is safe, the markup stands there between the two parts of the
page, no span of the page reaches over it, and the spans of the outcome are
those before the place, those of the markup, and those behind it. -/
theorem inject_disturbs_nothing (i : Injector) (html markup : List Char) (document : Option String)
    (hm : SelfContained markup) :
    ((i.inject html markup document).place = none →
      (i.inject html markup document).html = html) ∧
    ∀ place, (i.inject html markup document).place = some place →
      (scan html).isSafe place.offset = true ∧
      (∃ before rest, html = before ++ rest ∧ Text.width before = place.offset ∧
        (i.inject html markup document).html = before ++ markup ++ rest) ∧
      (scan html).spans =
        (scan html).spans.filter (fun s => s.stop ≤ place.offset) ++
          (scan html).spans.filter (fun s => place.offset ≤ s.start) ∧
      (scan (i.inject html markup document).html).spans =
        (scan html).spans.filter (fun s => s.stop ≤ place.offset) ++
          (scan markup).spans.map (Span.shift place.offset) ++
          ((scan html).spans.filter fun s => place.offset ≤ s.start).map
            (Span.shift (Text.width markup)) := by
  cases hplace : i.place? (scan html) (document.any i.excludes) with
  | none =>
    have houtcome : i.inject html markup document = ⟨html, none⟩ := by
      simp only [Injector.inject, hplace]
    rw [houtcome]
    refine ⟨fun _ => rfl, ?_⟩
    intro place hsome
    cases hsome
  | some chosen =>
    have houtcome : i.inject html markup document =
        ⟨splice html chosen.offset markup, some chosen⟩ := by
      simp only [Injector.inject, hplace]
    rw [houtcome]
    refine ⟨fun hnone => (by cases hnone), ?_⟩
    intro place hsome
    cases hsome
    have hsafe := Injector.isSafe_of_place? (ordered_scan html) hplace
    obtain ⟨before, rest, rfl, hwidth, hsplice⟩ := exists_splice_of_isSafe hsafe markup
    rw [← hwidth] at hsafe hsplice ⊢
    refine ⟨hsafe, ⟨before, rest, rfl, rfl, hsplice⟩, spans_eq_filter_append hsafe, ?_⟩
    rw [hsplice]
    exact spans_put hm hsafe

/-- A lone `<` right before the place. -/
theorem inject_disturbs_nothing_behind_lt :
    SelfContained "<b>".toList ∧
      (({} : Injector).inject "a <</body>".toList "<b>".toList none).place = some ⟨3, .late⟩ ∧
      (scan (({} : Injector).inject "a <</body>".toList "<b>".toList none).html).spans =
        (scan "a <</body>".toList).spans.filter (fun s => s.stop ≤ 3) ++
          (scan "<b>".toList).spans.map (Span.shift 3) ++
          ((scan "a <</body>".toList).spans.filter fun s => 3 ≤ s.start).map
            (Span.shift (Text.width "<b>".toList)) := by
  have hm : SelfContained "<b>".toList :=
    ⟨by decide +kernel, by decide +kernel, by decide +kernel⟩
  have hplace : (({} : Injector).inject "a <</body>".toList "<b>".toList none).place =
      some ⟨3, .late⟩ := by decide +kernel
  exact ⟨hm, hplace, ((inject_disturbs_nothing {} _ _ none hm).2 _ hplace).2.2.2⟩

end Page

end Trellis
