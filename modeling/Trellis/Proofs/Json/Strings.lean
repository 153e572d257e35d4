import Trellis.Json.Reader
import Trellis.Proofs.Escape
/-!
# Json — strings read back

A string is escaped character by character, and a script element escapes what
comes out of that a second time. The reader takes each piece for the character
it came from (`spells_scriptEscaped`), whatever follows, so it reads the text
of a string back as the string (`stringRest_script`).
-/

namespace Trellis

namespace Json

variable {text rest cs : List Char} {a b c d : Char} {n : Nat}

/-- A text that the reader of a string takes for one character. -/
def Spells (text : List Char) (c : Char) : Prop :=
  ∀ rest, stringRest (text ++ rest) = (stringRest rest).map fun (cs, rest) => (c :: cs, rest)

/-- A character that needs no escape spells itself. -/
theorem spells_self (hquote : c ≠ '"') (hslash : c ≠ '\\') (hcontrol : 0x20 ≤ c.toNat) :
    Spells [c] c := by
  intro rest
  have hnot : ¬ c.toNat < 0x20 := Nat.not_lt.2 hcontrol
  rw [List.singleton_append, stringRest]
  simp [hquote, hslash, hnot]

/-- So does an escape of its own length spell its character. -/
theorem spells_of_escape (h : ∀ rest, escape (text ++ rest) = .ok (c, text.length)) :
    Spells ('\\' :: text) c := by
  intro rest
  rw [List.cons_append, stringRest]
  simp [h rest]

/-! ## Numbered escapes -/

/-- Four digits are read as the number that they stand for. -/
theorem hexUnit_digits (h : hexNumber? [a, b, c, d] = some n) (rest : List Char) :
    hexUnit ([a, b, c, d] ++ rest) = .ok n := by
  -- the reader counts bytes before it looks at the digits
  have hwidth : ¬ Text.width [a, b, c, d] < 4 :=
    Nat.not_lt.2 (Text.length_le_width [a, b, c, d])
  have htake : ([a, b, c, d] ++ rest).take 4 = [a, b, c, d] := rfl
  unfold hexUnit
  rw [htake, if_neg hwidth, h]
  rfl

/-- A numbered escape spells the character of its number, halves of surrogate
pairs apart. -/
theorem spells_numbered (h : hexNumber? [a, b, c, d] = some n) (htrailing : isTrailing n = false)
    (hleading : isLeading n = false) : Spells ['\\', 'u', a, b, c, d] (Char.ofNat n) := by
  refine spells_of_escape fun rest => ?_
  have hnumber : numberedEscape ([a, b, c, d] ++ rest) = .ok (Char.ofNat n, 4) := by
    unfold numberedEscape
    rw [hexUnit_digits h]
    simp [bind, Except.bind, htrailing, hleading]
  have hescape : escape ('u' :: ([a, b, c, d] ++ rest)) = .ok (Char.ofNat n, 5) := by
    simp only [escape, hnumber, Except.map]
    rfl
  exact hescape

/-- So do the numbers of both halves of a surrogate pair together. -/
theorem spells_paired {e f g h : Char} {m : Nat} (hfirst : hexNumber? [a, b, c, d] = some n)
    (hleading : isLeading n = true) (hsecond : hexNumber? [e, f, g, h] = some m)
    (htrailing : isTrailing m = true) :
    Spells ['\\', 'u', a, b, c, d, '\\', 'u', e, f, g, h]
      (Char.ofNat ((n - 0xD800) * 0x400 + (m - 0xDC00) + 0x10000)) := by
  refine spells_of_escape fun rest => ?_
  have hnot : isTrailing n = false := by
    simp only [isLeading, Bool.and_eq_true, decide_eq_true_eq] at hleading
    simp only [isTrailing, Bool.and_eq_false_iff, decide_eq_false_iff_not]
    omega
  have hnumber : numberedEscape ([a, b, c, d] ++ ('\\' :: 'u' :: ([e, f, g, h] ++ rest))) =
      .ok (Char.ofNat ((n - 0xD800) * 0x400 + (m - 0xDC00) + 0x10000), 10) := by
    have hbehind : ([a, b, c, d] ++ ('\\' :: 'u' :: ([e, f, g, h] ++ rest))).drop 4 =
        '\\' :: 'u' :: ([e, f, g, h] ++ rest) := rfl
    unfold numberedEscape
    rw [hexUnit_digits hfirst, hbehind]
    simp only [bind, Except.bind, hnot, hleading, Bool.not_true, Bool.false_eq_true, if_false,
      hexUnit_digits hsecond, htrailing, if_true]
  have hescape : escape ('u' :: ([a, b, c, d] ++ ('\\' :: 'u' :: ([e, f, g, h] ++ rest)))) =
      .ok (Char.ofNat ((n - 0xD800) * 0x400 + (m - 0xDC00) + 0x10000), 11) := by
    simp only [escape, hnumber, Except.map]
    rfl
  exact hescape

/-- The marks that stand for characters behind a backslash. -/
def marks : List (Char × Char) :=
  [('"', '"'), ('\\', '\\'), ('/', '/'), ('b', '\x08'), ('f', '\x0c'), ('n', '\n'), ('r', '\r'),
    ('t', '\t')]

/-- A mark behind a backslash spells its character. -/
theorem spells_marked {mark : Char} (h : (mark, c) ∈ marks) : Spells ['\\', mark] c := by
  have hescape : ∀ pair ∈ marks, ∀ rest, escape ([pair.1] ++ rest) = .ok (pair.2, 1) := by
    intro pair hpair rest
    simp only [marks, List.mem_cons, List.not_mem_nil, or_false] at hpair
    rcases hpair with rfl | rfl | rfl | rfl | rfl | rfl | rfl | rfl <;> rfl
  exact spells_of_escape (hescape (mark, c) h)

/-- **How a string spells a character.** -/
inductive Spelling : List Char → Char → Prop where
  /-- A character stands for itself. -/
  | self {c : Char} (quote : c ≠ '"') (slash : c ≠ '\\') (control : 0x20 ≤ c.toNat) : Spelling [c] c
  /-- A mark stands for a character. -/
  | marked {mark c : Char} (known : (mark, c) ∈ marks) : Spelling ['\\', mark] c
  /-- Four digits number a character. -/
  | numbered {a b c d : Char} {n : Nat} (number : hexNumber? [a, b, c, d] = some n)
      (trailing : isTrailing n = false) (leading : isLeading n = false) :
      Spelling ['\\', 'u', a, b, c, d] (Char.ofNat n)
  /-- Twice four digits number the halves of a surrogate pair. -/
  | paired {a b c d e f g h : Char} {n m : Nat} (first : hexNumber? [a, b, c, d] = some n)
      (leading : isLeading n = true) (second : hexNumber? [e, f, g, h] = some m)
      (trailing : isTrailing m = true) :
      Spelling ['\\', 'u', a, b, c, d, '\\', 'u', e, f, g, h]
        (Char.ofNat ((n - 0xD800) * 0x400 + (m - 0xDC00) + 0x10000))

/-- **What spells a character is read as the character.** -/
theorem Spelling.spells (h : Spelling text c) : Spells text c := by
  cases h with
  | self quote slash control => exact spells_self quote slash control
  | marked known => exact spells_marked known
  | numbered number trailing leading => exact spells_numbered number trailing leading
  | paired first leading second trailing => exact spells_paired first leading second trailing

/-- The digit of a number is read as the number. -/
theorem hexValue?_digitChar (h : n < 16) : hexValue? n.digitChar = some n := by
  revert n
  decide

/-- Two digits are read as the number that they were written for. -/
theorem hexNumber?_hexPair (h : n < 256) :
    hexNumber? ('0' :: '0' :: hexPair n) = some n := by
  have hhigh : hexValue? (n / 16).digitChar = some (n / 16) := hexValue?_digitChar (by omega)
  have hlow : hexValue? (n % 16).digitChar = some (n % 16) := hexValue?_digitChar (by omega)
  have hzero : hexValue? '0' = some 0 := by decide
  have hsum : 16 * (n / 16) + n % 16 = n := Nat.div_add_mod n 16
  simp [hexNumber?, hexPair, hhigh, hlow, hzero, hsum]

/-- The numbered escape of a control character spells it. -/
theorem spells_control (h : c.toNat < 0x20) :
    Spells (['\\', 'u', '0', '0'] ++ hexPair c.toNat) c := by
  -- the number is far below the halves of surrogate pairs
  have htrailing : isTrailing c.toNat = false := by
    simp only [isTrailing, Bool.and_eq_false_iff, decide_eq_false_iff_not]
    omega
  have hleading : isLeading c.toNat = false := by
    simp only [isLeading, Bool.and_eq_false_iff, decide_eq_false_iff_not]
    omega
  have hspells := spells_numbered (hexNumber?_hexPair (n := c.toNat) (by omega)) htrailing hleading
  rwa [Char.ofNat_toNat] at hspells

/-- **A character written into a string is read back as itself.** -/
theorem spells_escaped (c : Char) : Spells (escaped c) c := by
  unfold escaped
  split
  · next h => exact spells_marked (by rw [h]; decide)
  split
  · next h => exact spells_marked (by rw [h]; decide)
  split
  · next h => exact spells_marked (by rw [h]; decide)
  split
  · next h => exact spells_marked (by rw [h]; decide)
  split
  · next h => exact spells_marked (by rw [h]; decide)
  split
  · next h => exact spells_marked (by rw [h]; decide)
  split
  · next h => exact spells_marked (by rw [h]; decide)
  split
  · next h => exact spells_control h
  · next hquote hslash _ _ _ _ _ hcontrol => exact spells_self hquote hslash (Nat.not_lt.1 hcontrol)

/-- **The text of a string is read back as the string.** -/
theorem stringRest_escapedText (cs rest : List Char) :
    stringRest (escapedText cs ++ rest) =
      (stringRest rest).map fun (more, rest) => (cs ++ more, rest) := by
  induction cs with
  | nil => cases h : stringRest rest <;> simp [escapedText, h, Except.map]
  | cons c cs ih =>
    rw [escapedText, List.flatMap_cons, ← escapedText, List.append_assoc, spells_escaped c, ih]
    cases stringRest rest <;> rfl

/-! ## Two escapings, one reader -/

/-- The digits of a numbered escape mean nothing to a script element. -/
theorem scriptChar_digitChar (h : n < 16) : Escape.scriptChar n.digitChar = [n.digitChar] := by
  revert n
  decide

/-- A character is written into a string as it is, or as what means nothing to a
script element. -/
theorem escaped_cases (c : Char) :
    (escaped c = [c] ∧ c ≠ '"' ∧ c ≠ '\\' ∧ 0x20 ≤ c.toNat) ∨
      ∀ d ∈ escaped c, Escape.scriptChar d = [d] := by
  have hslash : Escape.scriptChar '\\' = ['\\'] := by decide
  have short {mark : Char} (hmark : Escape.scriptChar mark = [mark]) :
      ∀ d ∈ ['\\', mark], Escape.scriptChar d = [d] :=
    List.forall_mem_cons.2 ⟨hslash, List.forall_mem_singleton.2 hmark⟩
  unfold escaped
  split
  · exact .inr (short (by decide))
  split
  · exact .inr (short (by decide))
  split
  · exact .inr (short (by decide))
  split
  · exact .inr (short (by decide))
  split
  · exact .inr (short (by decide))
  split
  · exact .inr (short (by decide))
  split
  · exact .inr (short (by decide))
  split
  · next hcontrol =>
    right
    intro d hd
    rcases List.mem_append.1 hd with hd | hd
    · simp only [List.mem_cons, List.not_mem_nil, or_false] at hd
      rcases hd with rfl | rfl | rfl | rfl <;> decide
    · rcases List.mem_pair.1 hd with rfl | rfl
      · exact scriptChar_digitChar (by omega)
      · exact scriptChar_digitChar (by omega)
  · next hquote hslash _ _ _ _ _ hcontrol =>
    exact .inl ⟨rfl, hquote, hslash, Nat.not_lt.1 hcontrol⟩

/-- A character that a string shows as it is, escaped for a script element,
still spells itself. -/
theorem spells_scriptChar (hquote : c ≠ '"') (hslash : c ≠ '\\') (hcontrol : 0x20 ≤ c.toNat) :
    Spells (Escape.scriptChar c) c := by
  unfold Escape.scriptChar
  split
  · next h => exact h ▸ spells_numbered (n := 0x3c) (by decide) (by decide) (by decide)
  split
  · next h => exact h ▸ spells_numbered (n := 0x3e) (by decide) (by decide) (by decide)
  split
  · next h => exact h ▸ spells_numbered (n := 0x26) (by decide) (by decide) (by decide)
  split
  · next h => exact h ▸ spells_numbered (n := 0x2028) (by decide) (by decide) (by decide)
  split
  · next h => exact h ▸ spells_numbered (n := 0x2029) (by decide) (by decide) (by decide)
  exact spells_self hquote hslash hcontrol

/-- **A character written into a string and then into a script element is read
back as itself.** -/
theorem spells_scriptEscaped (c : Char) : Spells ((escaped c).flatMap Escape.scriptChar) c := by
  rcases escaped_cases c with ⟨hself, hquote, hslash, hcontrol⟩ | hkept
  · rw [hself, List.flatMap_singleton]
    exact spells_scriptChar hquote hslash hcontrol
  · rw [← Escape.script, Escape.script_eq_self hkept]
    exact spells_escaped c

/-- Escaping distributes over the texts of strings. -/
theorem script_append (a b : List Char) : Escape.script (a ++ b) = Escape.script a ++ Escape.script b :=
  List.flatMap_append

/-- **The text of a string inside a script element is read back as the
string**, and the reader stops right behind the closing quote. -/
theorem stringRest_script (cs rest : List Char) :
    stringRest (Escape.script (escapedText cs) ++ '"' :: rest) = .ok (cs, rest) := by
  induction cs with
  | nil =>
    have hnil : Escape.script (escapedText []) = [] := rfl
    rw [hnil, List.nil_append, stringRest]
    simp
  | cons c cs ih =>
    have hcons : Escape.script (escapedText (c :: cs)) =
        (escaped c).flatMap Escape.scriptChar ++ Escape.script (escapedText cs) :=
      script_append (escaped c) (escapedText cs)
    rw [hcons, List.append_assoc, spells_scriptEscaped c, ih]
    rfl

end Json

end Trellis
