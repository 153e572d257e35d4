import Trellis.Hydration.Payload
import Trellis.Proofs.Text.Distinct
/-!
# Hydration — the windows of a payload

Data come to a payload window by window. One more insertion leaves the windows
in their places, so after a run of them the windows stand in the order in which
they came first, each once, with what came last (`names_collected`,
`mem_collected`).
-/

namespace Trellis

namespace Hydration

namespace Payload

variable {payload : Payload} {inserts : List (String × Json.Value)} {window : String}
  {value : Json.Value} {entry : String × Json.Value}

/-- The windows of a payload, in their order. -/
def names (payload : Payload) : List String :=
  payload.map Prod.fst

/-- The payload that a run of insertions leads to. -/
def collected (inserts : List (String × Json.Value)) : Payload :=
  inserts.foldl (fun payload entry => insert payload entry.1 entry.2) []

/-! ## One insertion -/

/-- **A window that is there keeps its place**, and another goes to the end. -/
theorem names_insert (payload : Payload) (window : String) (value : Json.Value) :
    names (insert payload window value) =
      if window ∈ names payload then names payload else names payload ++ [window] := by
  induction payload with
  | nil => rfl
  | cons first payload ih =>
    obtain ⟨w, v⟩ := first
    have hcons (v : Json.Value) (more : Payload) : names ((w, v) :: more) = w :: names more := rfl
    by_cases h : w = window
    · subst h
      rw [insert, if_pos rfl, hcons, hcons, if_pos List.mem_cons_self]
    · rw [insert, if_neg h, hcons, hcons, ih]
      by_cases hmem : window ∈ names payload
      · rw [if_pos hmem, if_pos (List.mem_cons_of_mem w hmem)]
      · have hfresh : window ∉ w :: names payload := by
          rw [List.mem_cons, not_or]
          exact ⟨fun e => h e.symm, hmem⟩
        rw [if_neg hmem, if_neg hfresh, List.cons_append]

/-- **After an insertion the window has the value**, and others are as they
were. -/
theorem mem_insert (hnodup : (names payload).Nodup) :
    entry ∈ insert payload window value ↔
      entry = (window, value) ∨ entry ∈ payload ∧ entry.1 ≠ window := by
  induction payload with
  | nil => simp [insert]
  | cons first payload ih =>
    obtain ⟨w, v⟩ := first
    obtain ⟨hfresh, hrest⟩ := List.nodup_cons.1 hnodup
    by_cases h : w = window
    · subst h
      have hne : entry ∈ payload → entry.1 ≠ w := by
        rintro hmem rfl
        have hname : entry.1 ∈ names payload := List.mem_map_of_mem hmem
        exact hfresh hname
      simp only [insert, if_true, List.mem_cons]
      constructor
      · rintro (rfl | hmem)
        · exact .inl rfl
        · exact .inr ⟨.inr hmem, hne hmem⟩
      · rintro (rfl | ⟨rfl | hmem, hother⟩)
        · exact .inl rfl
        · exact absurd rfl hother
        · exact .inr hmem
    · simp only [insert, if_neg h, List.mem_cons, ih hrest]
      constructor
      · rintro (rfl | rfl | ⟨hmem, hother⟩)
        · exact .inr ⟨.inl rfl, h⟩
        · exact .inl rfl
        · exact .inr ⟨.inr hmem, hother⟩
      · rintro (rfl | ⟨rfl | hmem, hother⟩)
        · exact .inr (.inl rfl)
        · exact .inl rfl
        · exact .inr (.inr ⟨hmem, hother⟩)

/-! ## A run of them -/

theorem collected_concat (inserts : List (String × Json.Value)) (entry : String × Json.Value) :
    collected (inserts ++ [entry]) = insert (collected inserts) entry.1 entry.2 := by
  simp [collected, List.foldl_append]

/-- **The windows stand in the order in which they came first.** -/
theorem names_collected (inserts : List (String × Json.Value)) :
    names (collected inserts) = Text.distinct (inserts.map Prod.fst) := by
  induction inserts using List.reverseRecOn with
  | nil => rfl
  | append_singleton inserts entry ih =>
    rw [collected_concat, names_insert, ih, List.map_append, List.map_singleton,
      Text.distinct_concat]

/-- No window stands there twice. -/
theorem nodup_names_collected (inserts : List (String × Json.Value)) :
    (names (collected inserts)).Nodup := by
  rw [names_collected]
  exact Text.nodup_distinct _

/-- **Each window has the value that came last.** -/
theorem mem_collected :
    entry ∈ collected inserts ↔
      ∃ before after, inserts = before ++ entry :: after ∧ entry.1 ∉ after.map Prod.fst := by
  induction inserts using List.reverseRecOn with
  | nil => simp [collected]
  | append_singleton inserts last ih =>
    rw [collected_concat, mem_insert (nodup_names_collected inserts), ih]
    -- either the last insertion is the one for the window, or it is for another
    constructor
    · rintro (rfl | ⟨⟨before, after, rfl, hafter⟩, hother⟩)
      · exact ⟨inserts, [], rfl, by simp⟩
      · refine ⟨before, after ++ [last], by simp, ?_⟩
        rw [List.map_append, List.mem_append, not_or]
        exact ⟨hafter, by simpa using hother⟩
    · rintro ⟨before, after, heq, hafter⟩
      rcases List.eq_nil_or_concat after with rfl | ⟨after, final, rfl⟩
      · have hlast := List.append_inj_right' heq rfl
        exact .inl (List.cons.inj hlast).1.symm
      · rw [List.concat_eq_append, ← List.cons_append, ← List.append_assoc] at heq
        obtain ⟨hbefore, hlast⟩ := List.append_inj' heq rfl
        obtain rfl : last = final := (List.cons.inj hlast).1
        rw [List.concat_eq_append, List.map_append, List.mem_append, not_or] at hafter
        exact .inr ⟨⟨before, after, hbefore, hafter.1⟩, by simpa using hafter.2⟩

end Payload

end Hydration

end Trellis
