import Trellis.Escape
import Trellis.Proofs.Text.Cut
/-!
# Escape — what an escaped text cannot hold, and what it stands for

Text escaped for a page holds neither quotes nor angle brackets, and data
escaped for a script element holds no `<`, `>` or `&`. What reads a page finds
no end of an attribute or of an element in them. A reader that puts characters
in the place of references gets the text that was escaped
(`dereferenced_page`).
-/

namespace Trellis

namespace Escape

variable {c d : Char} {cs : List Char}

/-- One character for a page becomes text without quotes and brackets. -/
theorem ne_of_mem_pageChar (h : d ∈ pageChar c) : d ≠ '"' ∧ d ≠ '\'' ∧ d ≠ '<' ∧ d ≠ '>' := by
  have written {word : String}
      (hword : ∀ d ∈ word.toList, d ≠ '"' ∧ d ≠ '\'' ∧ d ≠ '<' ∧ d ≠ '>')
      (hd : d ∈ word.toList) : d ≠ '"' ∧ d ≠ '\'' ∧ d ≠ '<' ∧ d ≠ '>' := hword d hd
  unfold pageChar at h
  split at h
  · exact written (by simp) h
  split at h
  · exact written (by simp) h
  split at h
  · exact written (by simp) h
  split at h
  · exact written (by simp) h
  split at h
  · exact written (by simp) h
  rw [List.mem_singleton] at h
  subst h
  exact ⟨‹_›, ‹_›, ‹_›, ‹_›⟩

/-- **Text escaped for a page holds no quotes and no brackets.** -/
theorem ne_of_mem_page (h : d ∈ page cs) : d ≠ '"' ∧ d ≠ '\'' ∧ d ≠ '<' ∧ d ≠ '>' := by
  obtain ⟨c, -, hd⟩ := List.mem_flatMap.1 h
  exact ne_of_mem_pageChar hd

/-- So no escaped value ends at a quote of its own. -/
theorem quote_not_mem_page (cs : List Char) : '"' ∉ page cs := fun h => (ne_of_mem_page h).1 rfl

/-- One character for a script element becomes text that cannot start or end
an element. -/
theorem ne_of_mem_scriptChar (h : d ∈ scriptChar c) : d ≠ '<' ∧ d ≠ '>' ∧ d ≠ '&' := by
  have written {word : String} (hword : ∀ d ∈ word.toList, d ≠ '<' ∧ d ≠ '>' ∧ d ≠ '&')
      (hd : d ∈ word.toList) : d ≠ '<' ∧ d ≠ '>' ∧ d ≠ '&' := hword d hd
  unfold scriptChar at h
  split at h
  · exact written (by simp) h
  split at h
  · exact written (by simp) h
  split at h
  · exact written (by simp) h
  split at h
  · exact written (by simp) h
  split at h
  · exact written (by simp) h
  rw [List.mem_singleton] at h
  subst h
  exact ⟨‹_›, ‹_›, ‹_›⟩

/-- **Data escaped for a script element can neither start nor end one.** -/
theorem ne_of_mem_script (h : d ∈ script cs) : d ≠ '<' ∧ d ≠ '>' ∧ d ≠ '&' := by
  obtain ⟨c, -, hd⟩ := List.mem_flatMap.1 h
  exact ne_of_mem_scriptChar hd

/-- What a script element does not escape stays as it is. -/
theorem script_eq_self (h : ∀ c ∈ cs, scriptChar c = [c]) : script cs = cs := by
  induction cs with
  | nil => rfl
  | cons c cs ih =>
    rw [script, List.flatMap_cons, h c List.mem_cons_self, ← script,
      ih fun d hd => h d (List.mem_cons_of_mem c hd)]
    rfl

theorem lt_not_mem_script (cs : List Char) : '<' ∉ script cs := fun h => (ne_of_mem_script h).1 rfl

/-! ## References -/

/-- The character that a reference stands for, by what is between its `&` and
its `;`: the markup characters by name, ASCII characters by number. -/
def referred? : List Char → Option Char
  | '#' :: digits =>
    let number := Nat.ofDigitChars 10 digits 0
    if digits.all Char.isDigit && number < 128 then some (Char.ofNat number) else none
  | name =>
    [("amp", '&'), ("lt", '<'), ("gt", '>'), ("quot", '"'), ("apos", '\'')].lookup
      (String.ofList name)

/-- The character of the reference that goes on behind an `&`, and the rest
behind it. -/
def reference? (cs : List Char) : Option (Char × List Char) :=
  (Text.cut? [';'] cs).bind fun (name, rest) => (referred? name).map (·, rest)

theorem length_of_reference? {rest : List Char} (h : reference? cs = some (c, rest)) :
    rest.length < cs.length := by
  simp only [reference?, Option.bind_eq_some_iff, Option.map_eq_some_iff, Prod.mk.injEq,
    Prod.exists] at h
  obtain ⟨name, behind, hcut, d, -, -, rfl⟩ := h
  have hlength := congrArg List.length (Text.eq_of_cut? hcut)
  simp only [List.length_append, List.length_cons, List.length_nil] at hlength
  omega

/-- The text of a page with the characters in the place of the references. -/
def dereferenced (cs : List Char) : List Char :=
  match cs with
  | [] => []
  | c :: cs =>
    if c = '&' then
      match _h : reference? cs with
      | some (d, rest) => d :: dereferenced rest
      | none => c :: dereferenced cs
    else c :: dereferenced cs
termination_by cs.length
decreasing_by
  · exact Nat.lt_succ_of_lt (length_of_reference? _h)
  · simp
  · simp

/-- A reference is read as its character. -/
theorem dereferenced_reference (name : List Char) (hname : ';' ∉ name)
    (h : referred? name = some c) (rest : List Char) :
    dereferenced ('&' :: (name ++ ';' :: rest)) = c :: dereferenced rest := by
  have hcut : Text.cut? [';'] (name ++ ';' :: rest) = some (name, rest) :=
    Text.cut?_of_not_mem hname [] rest
  -- the name ends at the first semicolon, which is the one behind it
  have hreference : reference? (name ++ ';' :: rest) = some (c, rest) := by
    simp [reference?, hcut, h]
  rw [dereferenced]
  simp only [if_true]
  split
  · next found hfound =>
    rw [hreference] at hfound
    obtain ⟨rfl, rfl⟩ := Prod.mk.inj (Option.some.inj hfound)
    rfl
  · next hnone => simp [hreference] at hnone

/-- One character for a page stands for itself. -/
theorem dereferenced_pageChar (c : Char) (rest : List Char) :
    dereferenced (pageChar c ++ rest) = c :: dereferenced rest := by
  unfold pageChar
  split
  · next h => exact h ▸ dereferenced_reference ['a', 'm', 'p'] (by decide) (by decide) rest
  split
  · next h => exact h ▸ dereferenced_reference ['l', 't'] (by decide) (by decide) rest
  split
  · next h => exact h ▸ dereferenced_reference ['g', 't'] (by decide) (by decide) rest
  split
  · next h => exact h ▸ dereferenced_reference ['q', 'u', 'o', 't'] (by decide) (by decide) rest
  split
  · next h => exact h ▸ dereferenced_reference ['#', '3', '9'] (by decide) (by decide) rest
  · next hamp _ _ _ _ =>
    rw [List.singleton_append, dereferenced, if_neg hamp]

/-- **Text escaped for a page stands for the text that was escaped.** -/
theorem dereferenced_page (cs : List Char) : dereferenced (page cs) = cs := by
  induction cs with
  | nil => rw [page, List.flatMap_nil, dereferenced]
  | cons c cs ih =>
    rw [page, List.flatMap_cons, dereferenced_pageChar, ← page, ih]

end Escape

end Trellis
