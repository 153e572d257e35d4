import Trellis.Text.Quoting
/-!
# Text — what a tag runs over

A reader that looks for the end of a tag passes over names, blanks and values in
quotes, whatever stands behind them (`Passes`). Texts that are passed over can be
put one behind the other. Where a text breaks off inside of a tag, the reader goes
on behind it in the state that the text left (`cut?_of_after?`).
-/

namespace Trellis

namespace Text

namespace Quoting

variable {blank : Char → Bool} {a b : List Char}

/-- A text that the reader of a tag passes over: outside of values before it
and behind it, and with no end of the tag in it. -/
def Passes (blank : Char → Bool) (a : List Char) : Prop :=
  ∀ rest, bare.cut? blank (a ++ rest) =
    (bare.cut? blank rest).map fun (inner, rest) => (a ++ inner, rest)

theorem passes_nil : Passes blank [] := by
  intro rest
  simp

theorem Passes.append (ha : Passes blank a) (hb : Passes blank b) : Passes blank (a ++ b) := by
  intro rest
  rw [List.append_assoc, ha, hb, Option.map_map]
  simp [Function.comp_def]

/-- Characters that neither end a tag nor start a value are passed over. -/
theorem passes_of_forall (h : ∀ c ∈ a, c ≠ '>' ∧ c ≠ '=') : Passes blank a := by
  induction a with
  | nil => exact passes_nil
  | cons c a ih =>
    intro rest
    obtain ⟨hend, hequals⟩ := h c List.mem_cons_self
    have htail := ih (fun d hd => h d (List.mem_cons_of_mem c hd)) rest
    simp [cut?, ends, step, hend, hequals, htail, Option.map_map, Function.comp_def]

/-- A value without the quote that it is put in is passed over up to that
quote. -/
theorem cut?_inside (blank : Char → Bool) {q : Char} {value : List Char} (h : q ∉ value)
    (rest : List Char) :
    (inside q).cut? blank (value ++ q :: rest) =
      (bare.cut? blank rest).map fun (inner, rest) => (value ++ q :: inner, rest) := by
  induction value with
  | nil => simp [cut?, ends, step]
  | cons c value ih =>
    have hc : c ≠ q := fun e => h (e ▸ List.mem_cons_self)
    have htail := ih fun hmem => h (List.mem_cons_of_mem c hmem)
    simp [cut?, ends, step, hc, htail, Option.map_map, Function.comp_def]

/-- Blanks behind an equals sign are passed over, and a value may still follow. -/
theorem cut?_afterEquals {behind : List Char}
    (h : ∀ c ∈ behind, blank c = true ∧ c ≠ '>' ∧ c ≠ '"' ∧ c ≠ '\'') (rest : List Char) :
    afterEquals.cut? blank (behind ++ rest) =
      (afterEquals.cut? blank rest).map fun (inner, rest) => (behind ++ inner, rest) := by
  induction behind with
  | nil => simp
  | cons c behind ih =>
    obtain ⟨hblank, hend, hdouble, hsingle⟩ := h c List.mem_cons_self
    have htail := ih fun d hd => h d (List.mem_cons_of_mem c hd)
    simp [cut?, ends, step, hblank, hend, hdouble, hsingle, htail, Option.map_map,
      Function.comp_def]

/-- **A value with the equals sign before it is passed over**, quotes included. -/
theorem passes_value {behind value : List Char} {q : Char}
    (hbehind : ∀ c ∈ behind, blank c = true ∧ c ≠ '>' ∧ c ≠ '"' ∧ c ≠ '\'')
    (hquote : q = '"' ∨ q = '\'') (hvalue : q ∉ value) :
    Passes blank ('=' :: (behind ++ q :: (value ++ [q]))) := by
  intro rest
  have hq : q ≠ '>' := by
    rintro rfl
    simp at hquote
  have hinside : (inside q).cut? blank (value ++ q :: rest) =
      (bare.cut? blank rest).map fun (inner, rest) => (value ++ q :: inner, rest) :=
    cut?_inside blank hvalue rest
  have hequals := cut?_afterEquals hbehind (q :: (value ++ q :: rest))
  simp only [cut?, ends, step, beq_iff_eq, hq, if_false, hquote, if_true, hinside] at hequals
  simp [cut?, ends, step, hequals, Option.map_map, Function.comp_def]

/-! ## Texts that break off -/

/-- How far a reader is inside of a tag behind a text, if the tag does not end in
it. -/
def after? (blank : Char → Bool) (s : Quoting) : List Char → Option Quoting
  | [] => some s
  | c :: cs => if s.ends c then none else after? blank (s.step blank c) cs

variable {s t : Quoting} {q : Char}

/-- **Behind a text the tag goes on in the state that the text left.** -/
theorem cut?_of_after? (h : s.after? blank a = some t) (rest : List Char) :
    s.cut? blank (a ++ rest) = (t.cut? blank rest).map fun (inner, rest) => (a ++ inner, rest) := by
  induction a generalizing s with
  | nil =>
    cases h
    simp
  | cons c a ih =>
    rw [after?] at h
    split at h
    · cases h
    · next hends =>
      simp [cut?, hends, ih h, Option.map_map, Function.comp_def]

/-- A text behind another goes on from where that one left the reader. -/
theorem after?_append (s : Quoting) (a b : List Char) :
    s.after? blank (a ++ b) = (s.after? blank a).bind fun t => t.after? blank b := by
  induction a generalizing s with
  | nil => rfl
  | cons c a ih =>
    rw [List.cons_append, after?, after?]
    split
    · rfl
    · exact ih _

/-- **Where a tag ends**: at a `>` that stands outside of values, where all before it
stand inside. -/
theorem cut?_eq_some_iff {cs inner rest : List Char} :
    s.cut? blank cs = some (inner, rest) ↔
      cs = inner ++ '>' :: rest ∧
        ∃ t, s.after? blank inner = some t ∧ ∀ quote, t ≠ inside quote := by
  constructor
  · intro h
    refine ⟨eq_of_cut? h, ?_⟩
    induction cs generalizing s inner with
    | nil => cases h
    | cons c cs ih =>
      rw [cut?] at h
      split at h
      · next hends =>
        obtain ⟨rfl, -⟩ := Prod.mk.inj (Option.some.inj h)
        refine ⟨s, rfl, ?_⟩
        rintro quote rfl
        cases hends
      · next hends =>
        obtain ⟨⟨inner, rest⟩, hcut, hsame⟩ := Option.map_eq_some_iff.1 h
        obtain ⟨rfl, rfl⟩ := Prod.mk.inj hsame
        rw [after?, if_neg hends]
        exact ih hcut
  · rintro ⟨rfl, t, hafter, houtside⟩
    have hcut : t.cut? blank ('>' :: rest) = some ([], rest) := by
      cases t with
      | inside quote => exact absurd rfl (houtside quote)
      | bare | afterEquals => simp [cut?, ends]
    rw [cut?_of_after? hafter, hcut]
    simp

/-- A `>` inside of a tag stands in a value. -/
theorem exists_inside_of_after? (h : s.after? blank (a ++ '>' :: b) = some t) :
    ∃ quote, s.after? blank a = some (inside quote) := by
  rw [after?_append] at h
  obtain ⟨u, hu, hrest⟩ := Option.bind_eq_some_iff.1 h
  cases u with
  | inside quote => exact ⟨quote, hu⟩
  | bare | afterEquals => simp [after?, ends] at hrest

/-- Characters that neither end a tag nor start a value leave the reader where it was. -/
theorem after?_bare_of_forall (h : ∀ c ∈ a, c ≠ '>' ∧ c ≠ '=') :
    bare.after? blank a = some bare := by
  induction a with
  | nil => rfl
  | cons c a ih =>
    obtain ⟨hend, hequals⟩ := h c List.mem_cons_self
    simp [after?, ends, step, hend, hequals, ih fun d hd => h d (List.mem_cons_of_mem c hd)]

/-- A text without the quote stays inside of the value. -/
theorem after?_inside (blank : Char → Bool) (h : q ∉ a) :
    (inside q).after? blank a = some (inside q) := by
  induction a with
  | nil => rfl
  | cons c a ih =>
    have hc : c ≠ q := fun e => h (e ▸ List.mem_cons_self)
    simp [after?, ends, step, hc, ih fun hmem => h (List.mem_cons_of_mem c hmem)]

/-- Inside of a value there is an equals sign and a quote in front. -/
theorem length_of_after?_bare (h : bare.after? blank a = some (inside q)) :
    2 ≤ a.length ∧ '=' ∈ a := by
  induction a with
  | nil => cases h
  | cons c a ih =>
    rw [after?] at h
    split at h
    · cases h
    · by_cases hc : c = '='
      · subst hc
        cases a with
        | nil => cases h
        | cons d a => simp
      · rw [step, if_neg hc] at h
        obtain ⟨hlength, hmem⟩ := ih h
        exact ⟨by rw [List.length_cons]; omega, List.mem_cons_of_mem c hmem⟩

/-- A value is put in one of the two quotes. -/
theorem quote_of_after? (hs : ∀ p, s = inside p → p = '"' ∨ p = '\'')
    (h : s.after? blank a = some (inside q)) : q = '"' ∨ q = '\'' := by
  induction a generalizing s with
  | nil =>
    cases h
    exact hs q rfl
  | cons c a ih =>
    rw [after?] at h
    split at h
    · cases h
    · refine ih ?_ h
      intro p hp
      unfold step at hp
      split at hp
      · split at hp
        · cases hp
        · cases hp
          exact hs _ rfl
      · split at hp
        · next hquote =>
          cases hp
          exact hquote
        · split at hp <;> cases hp
      · split at hp <;> cases hp

end Quoting

end Text

end Trellis
