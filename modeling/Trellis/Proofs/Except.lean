/-!
# Except — computations that succeed

What follows from the success of a computation that is put together from
others, and what is enough for it.
-/

namespace Trellis

namespace Except

variable {α β ε δ : Type}

/-- **One step after another succeeds** if the first one does and the second one
does with what it got. -/
theorem bind_eq_ok_iff {x : Except ε α} {f : α → Except ε β} {b : β} :
    (x >>= f) = .ok b ↔ ∃ a, x = .ok a ∧ f a = .ok b := by
  cases x with
  | error e =>
    constructor
    · intro h
      cases h
    · rintro ⟨a, h, -⟩
      cases h
  | ok a =>
    constructor
    · intro h
      exact ⟨a, rfl, h⟩
    · rintro ⟨a', h, hb⟩
      obtain rfl := Except.ok.inj h
      exact hb

theorem map_eq_ok_iff {x : Except ε α} {f : α → β} {b : β} :
    x.map f = .ok b ↔ ∃ a, x = .ok a ∧ f a = b := by
  cases x <;> simp [Except.map]

/-- Wording an error anew makes no success. -/
theorem mapError_eq_ok_iff {x : Except ε α} {f : ε → δ} {a : α} :
    x.mapError f = .ok a ↔ x = .ok a := by
  cases x with
  | error e =>
    constructor
    · intro h
      cases h
    · intro h
      cases h
  | ok a' =>
    constructor
    · intro h
      rw [Except.ok.inj h]
    · intro h
      rw [Except.ok.inj h]
      rfl

/-- An error worded anew was one before. -/
theorem mapError_eq_error_iff {x : Except ε α} {f : ε → δ} {e : δ} :
    x.mapError f = .error e ↔ ∃ cause, x = .error cause ∧ f cause = e := by
  cases x with
  | error cause =>
    constructor
    · intro h
      exact ⟨cause, rfl, Except.error.inj h⟩
    · rintro ⟨cause', h, rfl⟩
      rw [Except.error.inj h]
      rfl
  | ok a =>
    constructor
    · intro h
      cases h
    · rintro ⟨cause, h, -⟩
      cases h

/-- **One step after another fails** if the first one does, or the second one with
what it got. -/
theorem bind_eq_error_iff {x : Except ε α} {f : α → Except ε β} {e : ε} :
    (x >>= f) = .error e ↔ x = .error e ∨ ∃ a, x = .ok a ∧ f a = .error e := by
  cases x with
  | error e' =>
    constructor
    · intro h
      exact .inl (congrArg Except.error (Except.error.inj h))
    · rintro (h | ⟨a, h, -⟩)
      · rw [Except.error.inj h]
        rfl
      · cases h
  | ok a =>
    constructor
    · intro h
      exact .inr ⟨a, rfl, h⟩
    · rintro (h | ⟨a', h, hfails⟩)
      · cases h
      · obtain rfl := Except.ok.inj h
        exact hfails

/-- What succeeds has a result. -/
theorem exists_eq_ok {x : Except ε α} (h : x.isOk = true) : ∃ a, x = .ok a := by
  cases x with
  | error e => cases h
  | ok a => exact ⟨a, rfl⟩

/-- What does not succeed has an error. -/
theorem exists_eq_error {x : Except ε α} (h : x.isOk = false) : ∃ e, x = .error e := by
  cases x with
  | error e => exact ⟨e, rfl⟩
  | ok a => cases h

/-- The error of what does not succeed. -/
def error? : Except ε α → Option ε
  | .error e => some e
  | .ok _ => none

theorem eq_of_error? {x : Except ε α} {e : ε} (h : error? x = some e) : x = .error e := by
  cases x with
  | error e' => rw [Option.some.inj h]
  | ok a => cases h

/-! ## Runs -/

variable {f : β → α → Except ε β} {input : α} {inputs first second : List α}
  {state next reached last : β} {e : ε}

theorem foldlM_cons_of_ok (h : f state input = .ok next) :
    (input :: inputs).foldlM f state = inputs.foldlM f next := by
  rw [List.foldlM_cons, h]
  rfl

theorem foldlM_append_of_ok (h : first.foldlM f state = .ok reached) :
    (first ++ second).foldlM f state = second.foldlM f reached := by
  rw [List.foldlM_append, h]
  rfl

/-- A run in two parts succeeds if both do. -/
theorem foldlM_append_eq_ok_iff :
    (first ++ second).foldlM f state = .ok last ↔
      ∃ reached, first.foldlM f state = .ok reached ∧ second.foldlM f reached = .ok last := by
  rw [List.foldlM_append]
  exact bind_eq_ok_iff

/-- Steps that all succeed lead to the end. -/
theorem exists_foldlM (h : ∀ input ∈ inputs, ∀ state, ∃ next, f state input = .ok next)
    (state : β) : ∃ last, inputs.foldlM f state = .ok last := by
  induction inputs generalizing state with
  | nil => exact ⟨state, rfl⟩
  | cons input inputs ih =>
    obtain ⟨next, hnext⟩ := h input List.mem_cons_self state
    rw [foldlM_cons_of_ok hnext]
    exact ih (fun later hlater => h later (List.mem_cons_of_mem input hlater)) next

/-- A run fails at the first step that does. -/
theorem foldlM_eq_error_iff :
    inputs.foldlM f state = .error e ↔
      ∃ before input after reached, inputs = before ++ input :: after ∧
        before.foldlM f state = .ok reached ∧ f reached input = .error e := by
  constructor
  · intro h
    induction inputs generalizing state with
    | nil => cases h
    | cons input inputs ih =>
      cases hstep : f state input with
      | error e' =>
        rw [List.foldlM_cons, hstep] at h
        obtain rfl := Except.error.inj h
        exact ⟨[], input, inputs, state, rfl, rfl, hstep⟩
      | ok next =>
        rw [foldlM_cons_of_ok hstep] at h
        obtain ⟨before, later, after, reached, rfl, hrun, hfails⟩ := ih h
        refine ⟨input :: before, later, after, reached, rfl, ?_, hfails⟩
        rw [foldlM_cons_of_ok hstep]
        exact hrun
  · rintro ⟨before, input, after, reached, rfl, hrun, hfails⟩
    rw [foldlM_append_of_ok hrun, List.foldlM_cons, hfails]
    rfl

/-! ## Computations that end alike -/

/-- That two computations end alike: with the same error, or with results that belong
together. -/
inductive Alike {γ : Type} (R : β → γ → Prop) : Except ε β → Except ε γ → Prop where
  | error (e : ε) : Alike R (.error e) (.error e)
  | ok {b : β} {c : γ} (related : R b c) : Alike R (.ok b) (.ok c)

namespace Alike

variable {γ β' γ' : Type} {R : β → γ → Prop} {S : β' → γ' → Prop} {x : Except ε β}
  {y : Except ε γ} {g : γ → α → Except ε γ}

/-- Steps that end alike behind steps that do. -/
theorem bind {next : β → Except ε β'} {next' : γ → Except ε γ'} (h : Alike R x y)
    (hnext : ∀ b c, R b c → Alike S (next b) (next' c)) : Alike S (x >>= next) (y >>= next') := by
  cases h with
  | error e => exact .error e
  | ok related => exact hnext _ _ related

/-- **Runs end alike** if their steps do. -/
theorem foldlM {b : β} {c : γ} (h : R b c)
    (hstep : ∀ input ∈ inputs, ∀ b c, R b c → Alike R (f b input) (g c input)) :
    Alike R (inputs.foldlM f b) (inputs.foldlM g c) := by
  induction inputs generalizing b c with
  | nil => exact .ok h
  | cons input inputs ih =>
    rw [List.foldlM_cons, List.foldlM_cons]
    refine (hstep input List.mem_cons_self b c h).bind fun b' c' h' => ?_
    exact ih h' fun later hlater => hstep later (List.mem_cons_of_mem input hlater)

theorem error_iff {e : ε} (h : Alike R x y) : x = .error e ↔ y = .error e := by
  cases h with
  | error e' => simp only [Except.error.injEq]
  | ok related => simp only [reduceCtorEq]

theorem exists_of_ok {b : β} (h : Alike R x y) (hx : x = .ok b) : ∃ c, y = .ok c ∧ R b c := by
  cases h with
  | error e => cases hx
  | ok related =>
    obtain rfl := Except.ok.inj hx
    exact ⟨_, rfl, related⟩

end Alike

end Except

end Trellis
