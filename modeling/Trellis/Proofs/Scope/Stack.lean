import Trellis.Proofs.Scope.Layers
import Trellis.Proofs.Text.Blank
import Trellis.Render
/-!
# Scope — which overlay answers

What an overlay answers is said once, for each kind of path that it has an answer to
(`Answers`). In front of anything, it answers just that and hands on the rest
(`inFrontOf_of_answers`, `inFrontOf_of_silent`), so the innermost overlay with an answer
settles a path, and what lies beneath makes no difference. These are the overlays that the
path belongs to, with one exception: a loop without a key hands `@key` on even if its item
has a field of that name (`exists_answers_iff`).
-/

namespace Trellis

namespace Path

variable {path : String}

/-- The first segment of a text, and the segments of what is behind its first point. -/
theorem segments_eq_halves (text : List Char) :
    segments text = String.ofList (halves text).1 :: ((halves text).2.elim [] segments) := by
  rw [halves]
  cases hcut : Text.cut? ['.'] text with
  | none =>
    rw [segments, Text.pieces_eq_singleton (Text.not_mem_of_cut?_eq_none hcut)]
    rfl
  | some halves =>
    obtain ⟨first, rest⟩ := halves
    obtain ⟨rfl, hfirst⟩ := Text.cut?_singleton_eq_some_iff.1 hcut
    rw [segments, Text.pieces_append, Text.pieces_eq_singleton hfirst]
    rfl

/-- A text leads where its segments do. -/
theorem resolveText?_eq (fields : Json.Fields) (text : List Char) :
    resolveText? fields text = resolveIn? fields (segments text) := by
  rw [resolveText?, segments_eq_halves, resolveIn?]
  obtain ⟨first, rest⟩ := halves text
  cases rest with
  | none => simp [resolve?, List.foldlM_nil]
  | some rest => rfl

theorem firstOf_eq_halves (path : String) :
    firstOf path = String.ofList (halves (Text.trimmed path).toList).1 := by
  have hhead := head?_ofText path
  rw [ofText, segments_eq_halves, List.head?_cons] at hhead
  rw [Text.trimmed, String.toList_ofList]
  exact (Option.some.inj hhead).symm

theorem ofText_eq (path : String) : ofText path = segments (Text.trimmed path).toList := by
  rw [ofText, Text.trimmed, String.toList_ofList]

theorem ofText_trimmed (path : String) : ofText (Text.trimmed path) = ofText path := by
  rw [ofText_eq, Text.trimmed_trimmed, ← ofText_eq]

/-- A path has the segments of a name exactly if it is that name. -/
theorem ofText_eq_segments_iff (name : String) :
    ofText path = segments name.toList ↔ Text.trimmed path = name := by
  rw [ofText_eq, segments_eq_iff, String.toList_inj]

/-- The names that a loop answers for itself. -/
def loopNames : List String := ["this", ".", "@index", "@first", "@last", "@key"]

theorem mem_loopNames_iff :
    Text.trimmed path ∈ loopNames ↔
      ofText path ∈ [["this"], ["", ""], ["@index"], ["@first"], ["@last"], ["@key"]] := by
  have hsegments : [["this"], ["", ""], ["@index"], ["@first"], ["@last"], ["@key"]] =
      loopNames.map fun name => segments name.toList := by decide
  simp only [hsegments, List.mem_map, eq_comm, ofText_eq_segments_iff, exists_eq_right]

/-- A path into the item of a loop is none of its names. -/
theorem not_mem_loopNames {rest : List Char}
    (h : (Text.trimmed path).toList = "this.".toList ++ rest) : Text.trimmed path ∉ loopNames := by
  intro hname
  have hnone : ∀ name ∈ loopNames, Text.behind? "this.".toList name.toList = none := by decide
  have hbehind := hnone _ hname
  rw [Text.behind?_eq_some_iff.2 h] at hbehind
  cases hbehind

/-- A path leads into the item of a loop exactly if it starts with the item's name and a
point. -/
theorem ofText_eq_this_iff {rest : List Char} :
    ofText path = "this" :: segments rest ↔
      (Text.trimmed path).toList = "this.".toList ++ rest := by
  have hthis : "this" :: segments rest = segments ("this.".toList ++ rest) := by
    have hpieces := Text.pieces_append '.' "this".toList rest
    have htext : "this.".toList ++ rest = "this".toList ++ '.' :: rest := rfl
    rw [segments, segments, htext, hpieces]
    rfl
  rw [hthis, ofText_eq, segments_eq_iff]

theorem exists_of_ofText_eq_this {rest : Path} (h : ofText path = "this" :: rest)
    (hrest : rest ≠ []) : ∃ text, rest = segments text := by
  rw [ofText_eq, segments_eq_halves] at h
  obtain ⟨-, rfl⟩ := List.cons.inj h
  cases hhalves : (halves (Text.trimmed path).toList).2 with
  | none =>
    rw [hhalves] at hrest
    exact absurd rfl hrest
  | some text => exact ⟨text, rfl⟩

end Path

namespace Overlay

variable {path : String} {value? : Option Json.Value} {overlay : Overlay} {behind : Lookup}

/-! ## What an overlay answers -/

/-- **What an overlay answers to a path**, the blanks around it cut off. -/
inductive Answers (path : String) : Overlay → Option Json.Value → Prop where
  /-- Bindings answer the paths that start with a bound name. -/
  | bound {values : Json.Fields} (h : values.contains (Path.firstOf path) = true) :
      Answers path (.bindings values) (Path.resolveIn? values (Path.ofText path))
  /-- A loop answers for its item, -/
  | item {item : Json.Value} {index length : Nat} {key : Option String}
      (h : Text.trimmed path = "this" ∨ Text.trimmed path = ".") :
      Answers path (.loop item index length key) (some item)
  /-- for its position, -/
  | index {item : Json.Value} {index length : Nat} {key : Option String}
      (h : Text.trimmed path = "@index") :
      Answers path (.loop item index length key) (some (.number (.int index)))
  /-- whether it is the first, -/
  | first {item : Json.Value} {index length : Nat} {key : Option String}
      (h : Text.trimmed path = "@first") :
      Answers path (.loop item index length key) (some (.bool (index == 0)))
  /-- whether it is the last, -/
  | last {item : Json.Value} {index length : Nat} {key : Option String}
      (h : Text.trimmed path = "@last") :
      Answers path (.loop item index length key) (some (.bool (index + 1 == length)))
  /-- for its key if it has one, -/
  | key {item : Json.Value} {index length : Nat} {key : String}
      (h : Text.trimmed path = "@key") :
      Answers path (.loop item index length (some key)) (some (.string key))
  /-- for what is in the item, -/
  | below {item : Json.Value} {index length : Nat} {key : Option String} {rest : List Char}
      (h : (Text.trimmed path).toList = "this.".toList ++ rest) :
      Answers path (.loop item index length key) (Path.resolve? item (Path.segments rest))
  /-- and for the other paths that start with a key of the item. -/
  | field {fields : Json.Fields} {index length : Nat} {key : Option String}
      (h : fields.contains (Path.firstOf path) = true)
      (plain : Text.trimmed path ∉ Path.loopNames)
      (above : ¬ "this.".toList <+: (Text.trimmed path).toList) :
      Answers path (.loop (.object fields) index length key)
        (Path.resolveIn? fields (Path.ofText path))

/-- What an overlay answers is what it says in front of anything. -/
theorem inFrontOf_of_answers (h : overlay.Answers path value?) (behind : Lookup) :
    overlay.inFrontOf behind path = value? := by
  cases h with
  | bound h =>
    rw [Path.firstOf_eq_halves] at h
    unfold inFrontOf
    dsimp only
    rw [if_pos h, Path.resolveText?_eq, Path.ofText_eq]
  | item h =>
    unfold inFrontOf
    dsimp only
    rw [if_pos h]
  | index h =>
    unfold inFrontOf
    rw [h]
    rfl
  | first h =>
    unfold inFrontOf
    rw [h]
    rfl
  | last h =>
    unfold inFrontOf
    rw [h]
    rfl
  | key h =>
    unfold inFrontOf
    rw [h]
    rfl
  | @below item index length key rest h =>
    have hbehind := Text.behind?_eq_some_iff.2 h
    have hne := Path.not_mem_loopNames h
    simp only [Path.loopNames, List.mem_cons, not_or] at hne
    unfold inFrontOf
    simp only [hne, if_false, or_self, hbehind]
  | field h plain above =>
    rw [Path.firstOf_eq_halves] at h
    have hbehind : Text.behind? "this.".toList (Text.trimmed path).toList = none := by
      rw [Option.eq_none_iff_forall_ne_some]
      exact fun rest hrest => above ⟨rest, (Text.behind?_eq_some_iff.1 hrest).symm⟩
    simp only [Path.loopNames, List.mem_cons, not_or] at plain
    unfold inFrontOf
    simp only [plain, if_false, or_self, hbehind, h, if_true, Path.resolveText?_eq,
      Path.ofText_eq]

/-- What it does not answer it hands on, the blanks cut off. -/
theorem inFrontOf_of_silent (h : ∀ value?, ¬ overlay.Answers path value?) (behind : Lookup) :
    overlay.inFrontOf behind path = behind (Text.trimmed path) := by
  cases overlay with
  | bindings values =>
    have hbound : ¬ values.contains (Path.firstOf path) = true := fun hbound => h _ (.bound hbound)
    rw [Path.firstOf_eq_halves] at hbound
    unfold inFrontOf
    dsimp only
    rw [if_neg hbound]
  | loop item index length key =>
    have hitem : ¬ (Text.trimmed path = "this" ∨ Text.trimmed path = ".") :=
      fun heq => h _ (.item heq)
    have hindex : Text.trimmed path ≠ "@index" := fun heq => h _ (.index heq)
    have hfirst : Text.trimmed path ≠ "@first" := fun heq => h _ (.first heq)
    have hlast : Text.trimmed path ≠ "@last" := fun heq => h _ (.last heq)
    have hbelow : Text.behind? "this.".toList (Text.trimmed path).toList = none := by
      rw [Option.eq_none_iff_forall_ne_some]
      exact fun rest hrest => h _ (.below (Text.behind?_eq_some_iff.1 hrest))
    unfold inFrontOf
    simp only [if_neg hitem, if_neg hindex, if_neg hfirst, if_neg hlast, hbelow]
    by_cases hkey : Text.trimmed path = "@key"
    · cases key with
      | none => rw [if_pos hkey]
      | some key => exact absurd (.key hkey) (h _)
    rw [if_neg hkey]
    cases item with
    | object fields =>
      have hfield : ¬ Keyed.contains fields (Path.firstOf path) = true := by
        refine fun hfield => h _ (.field hfield ?_ ?_)
        · rw [not_or] at hitem
          simp [Path.loopNames, hitem, hindex, hfirst, hlast, hkey]
        · rintro ⟨rest, hrest⟩
          rw [Text.behind?_eq_some_iff.2 hrest.symm] at hbelow
          cases hbelow
      rw [Path.firstOf_eq_halves] at hfield
      dsimp only
      rw [if_neg hfield]
    | _ => rfl

theorem answers_of_answer? (h : overlay.answer? (Path.ofText path) = some value?) :
    overlay.Answers path value? := by
  have hhead := Path.head?_ofText path
  cases overlay with
  | bindings values =>
    unfold answer? at h
    dsimp only at h
    split at h
    · next first rest hpath =>
      rw [hpath, List.head?_cons, Option.some_inj] at hhead
      split at h
      · next hbound => exact Option.some.inj h ▸ .bound (hhead ▸ hbound)
      · cases h
    · cases h
  | loop item index length key =>
    generalize hpath : Path.ofText path = segments at h
    unfold answer? at h
    dsimp only at h
    split at h
    · exact Option.some.inj h ▸ .item (.inl ((Path.ofText_eq_segments_iff "this").1 hpath))
    · exact Option.some.inj h ▸ .item (.inr ((Path.ofText_eq_segments_iff ".").1 hpath))
    · exact Option.some.inj h ▸ .index ((Path.ofText_eq_segments_iff "@index").1 hpath)
    · exact Option.some.inj h ▸ .first ((Path.ofText_eq_segments_iff "@first").1 hpath)
    · exact Option.some.inj h ▸ .last ((Path.ofText_eq_segments_iff "@last").1 hpath)
    · exact Option.some.inj h ▸ .key ((Path.ofText_eq_segments_iff "@key").1 hpath)
    · cases h
    · next rest hrest =>
      obtain ⟨text, rfl⟩ := Path.exists_of_ofText_eq_this hpath hrest
      exact Option.some.inj h ▸ .below (Path.ofText_eq_this_iff.1 hpath)
    · next first rest _ _ _ _ _ hthis _ _ =>
      rw [hpath, List.head?_cons, Option.some_inj] at hhead
      cases item with
      | object fields =>
        dsimp only at h
        split at h
        · next hfield =>
          rw [← Option.some.inj h, ← hpath]
          refine .field (hhead ▸ hfield) ?_ ?_
          · rw [Path.mem_loopNames_iff, hpath]
            cases key <;> simp_all
          · rintro ⟨more, hmore⟩
            rw [Path.ofText_eq_this_iff.2 hmore.symm] at hpath
            exact hthis (List.cons.inj hpath).1.symm
        · cases h
      | _ => cases h
    · cases h

theorem answer?_of_answers (h : overlay.Answers path value?) :
    overlay.answer? (Path.ofText path) = some value? := by
  cases h with
  | bound h =>
    obtain ⟨rest, hpath⟩ := List.head?_eq_some_iff.1 (Path.head?_ofText path)
    unfold answer?
    dsimp only
    rw [hpath]
    simp only [h, if_true]
  | item h =>
    rcases h with h | h
    · rw [(Path.ofText_eq_segments_iff _).2 h]
      rfl
    · rw [(Path.ofText_eq_segments_iff _).2 h]
      rfl
  | index h =>
    rw [(Path.ofText_eq_segments_iff _).2 h]
    rfl
  | first h =>
    rw [(Path.ofText_eq_segments_iff _).2 h]
    rfl
  | last h =>
    rw [(Path.ofText_eq_segments_iff _).2 h]
    rfl
  | key h =>
    rw [(Path.ofText_eq_segments_iff _).2 h]
    rfl
  | below h =>
    rw [Path.ofText_eq_this_iff.2 h, Path.segments_eq_halves]
    rfl
  | field h plain above =>
    have hhead := Path.head?_ofText path
    rw [Path.mem_loopNames_iff] at plain
    generalize hpath : Path.ofText path = segments at plain hhead
    unfold answer?
    dsimp only
    split
    · simp at plain
    · simp at plain
    · simp at plain
    · simp at plain
    · simp at plain
    · simp at plain
    · simp at plain
    · next rest hrest =>
      obtain ⟨text, rfl⟩ := Path.exists_of_ofText_eq_this hpath hrest
      exact absurd ⟨text, (Path.ofText_eq_this_iff.1 hpath).symm⟩ above
    · rw [List.head?_cons, Option.some_inj] at hhead
      rw [hhead, if_pos h]
    · cases hhead

/-- **What an overlay answers to the segments of a path.** -/
theorem answer?_eq_some_iff :
    overlay.answer? (Path.ofText path) = some value? ↔ overlay.Answers path value? :=
  ⟨answers_of_answer?, answer?_of_answers⟩

/-- Blanks around a path make no difference. -/
theorem answers_trimmed :
    overlay.Answers (Text.trimmed path) value? ↔ overlay.Answers path value? := by
  rw [← answer?_eq_some_iff, ← answer?_eq_some_iff, Path.ofText_trimmed]

/-! ## Who owns a path -/

/-- **That a path belongs to an overlay**, by what the overlay is for: bound names, the names
for the item of a loop and for its position, its key if it has one, and the item's keys. -/
def Owns (path : String) : Overlay → Prop
  | .bindings values => values.contains (Path.firstOf path) = true
  | .loop item _ _ key =>
    Text.trimmed path ∈ ["this", ".", "@index", "@first", "@last"] ∨
      "this.".toList <+: (Text.trimmed path).toList ∨
      (Text.trimmed path = "@key" ∧ key.isSome = true) ∨
      ∃ fields, item = .object fields ∧ Keyed.contains fields (Path.firstOf path) = true

/-- That an overlay hands a path on without a look at its item: a loop without a key that is
asked for its key. -/
def PassesOver (path : String) : Overlay → Prop
  | .loop _ _ _ none => Text.trimmed path = "@key"
  | _ => False

/-- Only the name for a key is passed over. -/
theorem PassesOver.eq_key (h : overlay.PassesOver path) : Text.trimmed path = "@key" := by
  cases overlay with
  | bindings values => exact h.elim
  | loop item index length key =>
    cases key with
    | none => exact h
    | some key => exact h.elim

/-- **An overlay answers the paths that belong to it**, except those it passes over. -/
theorem exists_answers_iff :
    (∃ value?, overlay.Answers path value?) ↔ overlay.Owns path ∧ ¬ overlay.PassesOver path := by
  constructor
  · rintro ⟨value?, h⟩
    -- a name that is answered is another one than that for a key
    have hname {name : String} (h : Text.trimmed path = name) (hne : name ≠ "@key") :
        ¬ overlay.PassesOver path := fun hpass => hne (h.symm.trans hpass.eq_key)
    have hplain (h : Text.trimmed path ∉ Path.loopNames) : ¬ overlay.PassesOver path := by
      intro hpass
      exact h (hpass.eq_key ▸ by decide)
    cases h with
    | bound h => exact ⟨h, id⟩
    | item h =>
      refine ⟨.inl (by simpa using h.imp_right .inl), ?_⟩
      rcases h with h | h
      · exact hname h (by decide)
      · exact hname h (by decide)
    | index h => exact ⟨.inl (by simp [h]), hname h (by decide)⟩
    | first h => exact ⟨.inl (by simp [h]), hname h (by decide)⟩
    | last h => exact ⟨.inl (by simp [h]), hname h (by decide)⟩
    | key h => exact ⟨.inr (.inr (.inl ⟨h, rfl⟩)), id⟩
    | @below item index length key rest h =>
      exact ⟨.inr (.inl ⟨rest, h.symm⟩), hplain (Path.not_mem_loopNames h)⟩
    | @field fields index length key h plain above =>
      exact ⟨.inr (.inr (.inr ⟨fields, rfl, h⟩)), hplain plain⟩
  · rintro ⟨hown, hpass⟩
    cases overlay with
    | bindings values => exact ⟨_, .bound hown⟩
    | loop item index length key =>
      by_cases hname : Text.trimmed path ∈ Path.loopNames
      · -- each of its names is answered, that of the key if there is one
        simp only [Path.loopNames, List.mem_cons, List.not_mem_nil, or_false] at hname
        rcases hname with h | h | h | h | h | h
        · exact ⟨_, .item (.inl h)⟩
        · exact ⟨_, .item (.inr h)⟩
        · exact ⟨_, .index h⟩
        · exact ⟨_, .first h⟩
        · exact ⟨_, .last h⟩
        · cases key with
          | none => exact absurd h hpass
          | some key => exact ⟨_, .key h⟩
      by_cases hbelow : "this.".toList <+: (Text.trimmed path).toList
      · obtain ⟨rest, hrest⟩ := hbelow
        exact ⟨_, .below hrest.symm⟩
      rcases hown with h | h | ⟨h, -⟩ | ⟨fields, rfl, h⟩
      · exact absurd (List.mem_append_left ["@key"] h) hname
      · exact absurd h hbelow
      · exact absurd (by simp [h, Path.loopNames]) hname
      · exact ⟨_, .field h hname hbelow⟩

/-! ## Stacks -/

variable {base : Lookup} {overlays above beneath : List Overlay}

theorem stack_cons (base : Lookup) (overlay : Overlay) (overlays : List Overlay) :
    stack base (overlay :: overlays) = overlay.inFrontOf (stack base overlays) := by
  rw [stack, List.foldr_cons, ← stack]

/-- **The innermost overlay that answers a path settles it.** -/
theorem stack_of_answers (habove : ∀ o ∈ above, ∀ value?, ¬ o.Answers path value?)
    (h : overlay.Answers path value?) (base : Lookup) (beneath : List Overlay) :
    stack base (above ++ overlay :: beneath) path = value? := by
  induction above generalizing path with
  | nil => exact inFrontOf_of_answers h _
  | cons o above ih =>
    obtain ⟨ho, habove⟩ := List.forall_mem_cons.1 habove
    rw [List.cons_append, stack_cons, inFrontOf_of_silent ho]
    exact ih (by simpa only [answers_trimmed] using habove) (answers_trimmed.2 h)

/-- A path that no overlay answers comes to what stands behind all of them, without the
blanks around it if there is an overlay. -/
theorem stack_of_silent (h : ∀ o ∈ overlays, ∀ value?, ¬ o.Answers path value?) (base : Lookup) :
    stack base overlays path = base (if overlays.isEmpty then path else Text.trimmed path) := by
  induction overlays generalizing path with
  | nil => rfl
  | cons o overlays ih =>
    obtain ⟨ho, h⟩ := List.forall_mem_cons.1 h
    rw [stack_cons, inFrontOf_of_silent ho, ih (by simpa only [answers_trimmed] using h)]
    simp

/-- **What stands behind an overlay that answers a path makes no difference.** -/
theorem stack_congr (h : overlay.Answers path value?) (base base' : Lookup)
    (above beneath beneath' : List Overlay) :
    stack base (above ++ overlay :: beneath) path =
      stack base' (above ++ overlay :: beneath') path := by
  induction above generalizing path with
  | nil =>
    rw [List.nil_append, List.nil_append, stack_cons, stack_cons, inFrontOf_of_answers h,
      inFrontOf_of_answers h]
  | cons o above ih =>
    rw [List.cons_append, List.cons_append, stack_cons, stack_cons]
    by_cases ho : ∃ value?, o.Answers path value?
    · obtain ⟨value?, ho⟩ := ho
      rw [inFrontOf_of_answers ho, inFrontOf_of_answers ho]
    · rw [not_exists] at ho
      rw [inFrontOf_of_silent ho, inFrontOf_of_silent ho]
      exact ih (answers_trimmed.2 h)

end Overlay

/-! ## Scopes -/

/-- **A scope is a stack of its overlays** in front of its layers. -/
theorem Scope.lookup_eq_stack (scope : Scope) :
    scope.lookup =
      Overlay.stack (fun path => scope.layers.lookup (Path.ofText path)) scope.overlays := by
  funext path
  obtain ⟨overlays, layers⟩ := scope
  change lookupAbove layers.lookup (Path.ofText path) overlays = _
  induction overlays generalizing path with
  | nil => rfl
  | cons overlay overlays ih =>
    rw [lookupAbove, Overlay.stack_cons]
    cases hanswer : overlay.answer? (Path.ofText path) with
    | some value? =>
      rw [Overlay.inFrontOf_of_answers (Overlay.answers_of_answer? hanswer), Option.getD_some]
    | none =>
      have hsilent : ∀ value?, ¬ overlay.Answers path value? := by
        intro value? h
        rw [Overlay.answer?_of_answers h] at hanswer
        cases hanswer
      rw [Overlay.inFrontOf_of_silent hsilent, Option.getD_none, ← ih, Path.ofText_trimmed]

/-- **How a stack of overlays answers a path.** -/
structure Innermost (base : Lookup) (overlays : List Overlay) (path : String) : Prop where
  /-- The innermost overlay that the path belongs to answers it, with nothing as well. Those
  that pass it over do not count. -/
  owned : ∀ {above overlay beneath}, overlays = above ++ overlay :: beneath →
    (∀ o ∈ above, o.Owns path → o.PassesOver path) →
    overlay.Owns path → ¬ overlay.PassesOver path →
    overlay.Answers path (Overlay.stack base overlays path)
  /-- If there is none the answer is the one from behind the stack. -/
  unowned : (∀ o ∈ overlays, o.Owns path → o.PassesOver path) →
    Overlay.stack base overlays path = base (if overlays.isEmpty then path else Text.trimmed path)
  /-- Whatever lies beneath such an overlay makes no difference, neither to the answer nor to
  what is shown of it. -/
  hidden : ∀ {above overlay beneath}, overlays = above ++ overlay :: beneath →
    overlay.Owns path → ¬ overlay.PassesOver path →
    ∀ (base' : Lookup) (beneath' : List Overlay),
      Overlay.stack base' (above ++ overlay :: beneath') path = Overlay.stack base overlays path ∧
      ∀ escaping raw,
        Render.placeholder escaping (Overlay.stack base' (above ++ overlay :: beneath')) path raw =
          Render.placeholder escaping (Overlay.stack base overlays) path raw
  /-- A scope with these overlays answers as they do in front of its layers, -/
  scope : ∀ layers : Layers, Scope.lookup { overlays, layers } path =
    Overlay.stack (fun path => layers.lookup (Path.ofText path)) overlays path
  /-- so a page shows the same there, whatever lies beneath. -/
  shown : ∀ {above overlay beneath}, overlays = above ++ overlay :: beneath →
    overlay.Owns path → ¬ overlay.PassesOver path →
    ∀ (layers layers' : Layers) (beneath' : List Overlay) escaping embed raw place,
      Render.node escaping embed (.placeholder path raw place)
          (Scope.lookup { overlays := above ++ overlay :: beneath', layers := layers' }) =
        Render.node escaping embed (.placeholder path raw place)
          (Scope.lookup { overlays, layers })

namespace Overlay

/-- **A path is settled by the innermost overlay that it belongs to**, unless that one passes
it over. -/
theorem innermost_stack (base : Lookup) (overlays : List Overlay) (path : String) :
    Innermost base overlays path := by
  have hanswers {o : Overlay} (hown : o.Owns path) (hpass : ¬ o.PassesOver path) :
      ∃ value?, o.Answers path value? := exists_answers_iff.2 ⟨hown, hpass⟩
  have hsilent {os : List Overlay} (hpass : ∀ o ∈ os, o.Owns path → o.PassesOver path) :
      ∀ o ∈ os, ∀ value?, ¬ o.Answers path value? := by
    intro o ho value? h
    obtain ⟨hown, hnot⟩ := exists_answers_iff.1 ⟨value?, h⟩
    exact hnot (hpass o ho hown)
  refine ⟨?_, ?_, ?_, ?_, ?_⟩
  · rintro above overlay beneath rfl habove hown hpass
    obtain ⟨value?, h⟩ := hanswers hown hpass
    rwa [stack_of_answers (hsilent habove) h]
  · exact fun hpass => stack_of_silent (hsilent hpass) base
  · rintro above overlay beneath rfl hown hpass base' beneath'
    obtain ⟨value?, h⟩ := hanswers hown hpass
    have hsame := stack_congr h base' base above beneath' beneath
    exact ⟨hsame, fun escaping raw => by rw [Render.placeholder, hsame, Render.placeholder]⟩
  · exact fun layers => congrFun (Scope.lookup_eq_stack _) path
  · rintro above overlay beneath rfl hown hpass layers layers' beneath' escaping embed raw place
    obtain ⟨value?, h⟩ := hanswers hown hpass
    have hsame : Scope.lookup { overlays := above ++ overlay :: beneath', layers := layers' } path =
        Scope.lookup { overlays := above ++ overlay :: beneath, layers } path := by
      rw [Scope.lookup_eq_stack, Scope.lookup_eq_stack]
      exact stack_congr h _ _ above beneath' beneath
    rw [Render.node, Render.node, Render.placeholder, hsame, Render.placeholder]

/-- A loop over a list inside of one over an object leaves the key to the outer one. -/
example :
    stack (fun _ => none)
      [.loop (.string "leaf") 2 3 none, .loop (.object []) 0 1 (some "first")] " @key" =
        some (.string "first") := by
  rfl

/-- It does so as well if its item has such a key itself. -/
example :
    stack (fun _ => none) [.loop (.object [("@key", .string "own")]) 0 1 none] "@key" = none := by
  rfl

end Overlay

end Trellis
