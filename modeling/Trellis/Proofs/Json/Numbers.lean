import Trellis.Json.Reader
import Trellis.Proofs.Escape
import Trellis.Proofs.Except
/-!
# Json — whole numbers read back

The digits of a whole number are gathered into the number they were written
for, as long as it has at most sixty-four bits. The reader takes all digits that
there are, so a number is read as it is by itself in front of any text that does
not go on with it (`value_of_integral`).
-/

namespace Trellis

namespace Json

variable {rest digits : List Char} {m n taken : Nat} {c : Char}

/-- What may stand behind a number: nothing that would go on with it. -/
def Ends (rest : List Char) : Prop :=
  ∀ c ∈ rest.head?, c.isDigit = false ∧ c ∉ ['.', 'e', 'E']

theorem ends_nil : Ends [] := by
  intro c hc
  cases hc

theorem ends_cons (h : c.isDigit = false ∧ c ∉ ['.', 'e', 'E']) (rest : List Char) :
    Ends (c :: rest) := by
  intro d hd
  rwa [← Option.some.inj hd]

/-- What is no space is not skipped. -/
theorem skipSpace_cons (h : isSpace c = false) (cs : List Char) : skipSpace (c :: cs) = c :: cs := by
  simp [skipSpace, h]

/-! ## Digits -/

theorem isDigit_of_mem_toDigits (h : c ∈ Nat.toDigits 10 m) : c.isDigit = true :=
  Nat.isDigit_of_mem_toDigits (by decide) (by decide) h

/-- Reading digits on makes a number no smaller. -/
theorem le_ofDigitChars (digits : List Char) (n : Nat) : n ≤ Nat.ofDigitChars 10 digits n := by
  induction digits generalizing n with
  | nil => exact Nat.le_of_eq Nat.ofDigitChars_nil.symm
  | cons c digits ih =>
    rw [Nat.ofDigitChars_cons]
    have hmore := ih (10 * n + (c.toNat - '0'.toNat))
    omega

/-- Digits of a number that does not outgrow the whole ones are all gathered. -/
theorem gather_eq (h : Nat.ofDigitChars 10 digits n ≤ greatestWhole) :
    gather n taken digits = (Nat.ofDigitChars 10 digits n, taken + digits.length) := by
  induction digits generalizing n taken with
  | nil => simp [gather, Nat.ofDigitChars_nil]
  | cons c digits ih =>
    rw [Nat.ofDigitChars_cons, Nat.mul_comm 10 n] at h
    have hnext := le_ofDigitChars digits (n * 10 + (c.toNat - '0'.toNat))
    have hfits : ¬ greatestWhole < n * 10 + (c.toNat - '0'.toNat) := by omega
    have hcount : taken + (c :: digits).length = taken + 1 + digits.length := by
      rw [List.length_cons]
      omega
    rw [gather, if_neg hfits, ih h, Nat.ofDigitChars_cons, Nat.mul_comm 10 n, hcount]

/-- **No number but zero is written with a zero in front.** -/
theorem head?_toDigits (h : 0 < m) : (Nat.toDigits 10 m).head? ≠ some '0' := by
  induction m using Nat.strongRecOn with
  | ind m ih =>
    rcases Nat.lt_or_ge m 10 with hlt | hge
    · rw [Nat.toDigits_of_lt_base hlt]
      have hchar : ∀ m < 10, 0 < m → m.digitChar ≠ '0' := by decide
      exact fun heq => hchar m hlt h (Option.some.inj heq)
    · -- a number of more digits starts as its tenth does
      have hquotient : (Nat.toDigits 10 (m / 10)).head? ≠ some '0' :=
        ih (m / 10) (by omega) (by omega)
      obtain ⟨c, digits, hdigits⟩ :=
        List.exists_cons_of_ne_nil (Nat.toDigits_ne_nil (n := m / 10) (b := 10))
      rw [Nat.toDigits_of_base_le (by decide) hge]
      rwa [hdigits] at hquotient ⊢

/-- A number that starts with a zero is one digit long. -/
theorem length_toDigits_of_zero (h : (Nat.toDigits 10 m).head? = some '0') :
    (Nat.toDigits 10 m).length = 1 := by
  rcases Nat.eq_zero_or_pos m with rfl | hpos
  · rw [Nat.toDigits_zero]
    rfl
  · exact absurd h (head?_toDigits hpos)

/-! ## Numbers -/

/-- The number of digits that end where the text behind them begins. -/
def gathered (positive : Bool) (digits rest : List Char) : Reading Number :=
  let before : Int := (digits.length - (gather 0 0 digits).2 : Nat)
  if before = 0 then whole positive (gather 0 0 digits).1 rest
  else double positive (gather 0 0 digits).1 before rest

/-- **Digits are read up to where they end.** A zero in front of others is refused. -/
theorem unsignedNumber_append (positive : Bool) (hne : digits ≠ [])
    (hdigits : ∀ c ∈ digits, c.isDigit = true) (hrest : Ends rest) :
    unsignedNumber positive (digits ++ rest) =
      if digits.head? = some '0' ∧ 1 < digits.length then
        stopOn .malformedNumber (digits.tail ++ rest)
      else gathered positive digits rest := by
  have hrun : (digits ++ rest).takeWhile Char.isDigit = digits := by
    rw [List.takeWhile_append_of_pos hdigits]
    cases rest with
    | nil => simp
    | cons c rest => simp [(hrest c rfl).1]
  have hbehind : (digits ++ rest).dropWhile Char.isDigit = rest := by
    rw [List.dropWhile_append_of_pos hdigits]
    cases rest with
    | nil => rfl
    | cons c rest => simp [(hrest c rfl).1]
  obtain ⟨c, more, rfl⟩ := List.exists_cons_of_ne_nil hne
  have hdigit : c.isDigit = true := hdigits c List.mem_cons_self
  rw [List.cons_append] at hrun hbehind ⊢
  rw [unsignedNumber, hrun, hbehind]
  simp only [hdigit, Bool.not_true, Bool.false_eq_true, if_false, List.head?_cons, Option.some.injEq,
    List.tail_cons, Bool.and_eq_true, decide_eq_true_eq, gathered]
  split
  · rfl
  -- a point or a letter behind the digits would go on with the number
  split
  · exact absurd (hrest '.' rfl).2 (by decide)
  · exact absurd (hrest 'e' rfl).2 (by decide)
  · exact absurd (hrest 'E' rfl).2 (by decide)
  · rfl

/-- What is behind a number is left as it is, whatever it is. -/
theorem double_of_ok {positive : Bool} {exponent : Int} {number : Number} {rest' : List Char}
    (h : double positive n exponent rest = .ok (number, rest')) (behind : List Char) :
    double positive n exponent behind = .ok (number, behind) := by
  unfold double at h ⊢
  split at h
  · rw [(Prod.mk.inj (Except.ok.inj h)).1]
  · cases h

theorem whole_of_ok {positive : Bool} {number : Number} {rest' : List Char}
    (h : whole positive n rest = .ok (number, rest')) (behind : List Char) :
    whole positive n behind = .ok (number, behind) := by
  unfold whole at h ⊢
  split
  · next hpositive =>
    rw [if_pos hpositive] at h
    rw [(Prod.mk.inj (Except.ok.inj h)).1]
  · next hpositive =>
    rw [if_neg hpositive] at h
    split
    · next hlarge =>
      rw [if_pos hlarge] at h
      exact double_of_ok h behind
    · next hfits =>
      rw [if_neg hfits] at h
      rw [(Prod.mk.inj (Except.ok.inj h)).1]

theorem gathered_of_ok {positive : Bool} {number : Number} {rest' : List Char}
    (h : gathered positive digits rest = .ok (number, rest')) (behind : List Char) :
    gathered positive digits behind = .ok (number, behind) := by
  unfold gathered at h ⊢
  dsimp only at h ⊢
  split
  · next hall =>
    rw [if_pos hall] at h
    exact whole_of_ok h behind
  · next hmore =>
    rw [if_neg hmore] at h
    exact double_of_ok h behind

/-- **Digits that are a number by themselves are that number** in front of any text
that does not go on with it. -/
theorem unsignedNumber_of_ok {positive : Bool} {number : Number} {rest' : List Char}
    (hne : digits ≠ []) (hdigits : ∀ c ∈ digits, c.isDigit = true)
    (h : unsignedNumber positive digits = .ok (number, rest')) (hrest : Ends rest) :
    unsignedNumber positive (digits ++ rest) = .ok (number, rest) := by
  have hread := unsignedNumber_append positive hne hdigits ends_nil
  rw [List.append_nil, h] at hread
  rw [unsignedNumber_append positive hne hdigits hrest]
  split at hread
  · cases hread
  · next hzero =>
    rw [if_neg hzero]
    exact gathered_of_ok hread.symm rest

/-- **The digits of a number are read as the number.** -/
theorem unsignedNumber_toDigits (positive : Bool) (hm : m ≤ greatestWhole) :
    unsignedNumber positive (Nat.toDigits 10 m) = whole positive m [] := by
  have hgather : gather 0 0 (Nat.toDigits 10 m) = (m, (Nat.toDigits 10 m).length) := by
    rw [gather_eq (by rwa [Nat.ofDigitChars_ten_toDigits]), Nat.ofDigitChars_ten_toDigits,
      Nat.zero_add]
  -- the reader refuses a zero with digits behind it, which no number has
  have hzero : ¬ ((Nat.toDigits 10 m).head? = some '0' ∧ 1 < (Nat.toDigits 10 m).length) := by
    rintro ⟨hhead, hlong⟩
    rw [length_toDigits_of_zero hhead] at hlong
    exact Nat.lt_irrefl 1 hlong
  have hread := unsignedNumber_append positive (Nat.toDigits_ne_nil (n := m) (b := 10))
    (fun c hc => isDigit_of_mem_toDigits hc) ends_nil
  rw [List.append_nil, if_neg hzero] at hread
  rw [hread, gathered, hgather]
  simp

/-- The text of a whole number holds nothing that a script element escapes. -/
theorem script_intText (n : Int) : Escape.script (intText n) = intText n := by
  have hchar {c : Char} (h : c = '-' ∨ c.isDigit = true) : Escape.scriptChar c = [c] := by
    have hne {d : Char} (hd : d ≠ '-' ∧ d.isDigit = false) : c ≠ d := by
      rintro rfl
      rcases h with rfl | h
      · exact hd.1 rfl
      · simp [hd.2] at h
    unfold Escape.scriptChar
    rw [if_neg (hne (by decide)), if_neg (hne (by decide)), if_neg (hne (by decide)),
      if_neg (hne (by decide)), if_neg (hne (by decide))]
  have hmem : ∀ c ∈ intText n, c = '-' ∨ c.isDigit = true := by
    intro c hc
    unfold intText at hc
    split at hc
    · rcases List.mem_cons.1 hc with rfl | hc
      · exact .inl rfl
      · exact .inr (isDigit_of_mem_toDigits hc)
    · exact .inr (isDigit_of_mem_toDigits hc)
  exact Escape.script_eq_self fun c hc => hchar (hmem c hc)

/-- **The text of a whole number**: digits, with a sign in front if it is negative. -/
inductive Integral : List Char → Prop where
  | unsigned {digits : List Char} (nonempty : digits ≠ [])
      (all : ∀ c ∈ digits, c.isDigit = true) : Integral digits
  | negative {digits : List Char} (nonempty : digits ≠ [])
      (all : ∀ c ∈ digits, c.isDigit = true) : Integral ('-' :: digits)

theorem integral_intText (n : Int) : Integral (intText n) := by
  have hne := Nat.toDigits_ne_nil (n := n.natAbs) (b := 10)
  unfold intText
  split
  · exact .negative hne fun c hc => isDigit_of_mem_toDigits hc
  · exact .unsigned hne fun c hc => isDigit_of_mem_toDigits hc

theorem ne_of_isDigit {d : Char} (h : c.isDigit = true) (hd : d.isDigit = false) : c ≠ d := by
  rintro rfl
  exact Bool.false_ne_true (hd.symm.trans h)

theorem isSpace_of_isDigit (h : c.isDigit = true) : isSpace c = false := by
  simp [isSpace, ne_of_isDigit h (d := ' ') rfl, ne_of_isDigit h (d := '\t') rfl,
    ne_of_isDigit h (d := '\n') rfl, ne_of_isDigit h (d := '\r') rfl]

/-- A value that begins with a sign is a number. -/
theorem value_sign (steps depth : Nat) (cs : List Char) :
    value (steps + 1) depth ('-' :: cs) =
      (unsignedNumber false cs).map fun (n, rest) => (.number n, rest) := by
  rw [value, skipSpace_cons (c := '-') rfl]
  simp

/-- A value that begins with a digit is a number. -/
theorem value_digit (h : c.isDigit = true) (steps depth : Nat) (cs : List Char) :
    value (steps + 1) depth (c :: cs) =
      (unsignedNumber true (c :: cs)).map fun (n, rest) => (.number n, rest) := by
  rw [value, skipSpace_cons (isSpace_of_isDigit h)]
  simp [ne_of_isDigit h (d := 'n') rfl, ne_of_isDigit h (d := 't') rfl,
    ne_of_isDigit h (d := 'f') rfl, ne_of_isDigit h (d := '-') rfl, h]

/-- **A whole number that is a value by itself is that value** in front of any text
that does not go on with it. -/
theorem value_of_integral {text rest' : List Char} {v : Value} {steps depth : Nat}
    (h : Integral text) (hread : value (steps + 1) depth text = .ok (v, rest'))
    (hrest : Ends rest) (steps' depth' : Nat) :
    value (steps' + 1) depth' (text ++ rest) = .ok (v, rest) := by
  cases h with
  | unsigned hne hdigits =>
    obtain ⟨c, digits, rfl⟩ := List.exists_cons_of_ne_nil hne
    have hdigit : c.isDigit = true := hdigits c List.mem_cons_self
    rw [value_digit hdigit] at hread
    obtain ⟨⟨number, behind⟩, hnumber, hv⟩ := Except.map_eq_ok_iff.1 hread
    obtain ⟨rfl, -⟩ := Prod.mk.inj hv
    rw [List.cons_append, value_digit hdigit, ← List.cons_append,
      unsignedNumber_of_ok hne hdigits hnumber hrest]
    rfl
  | negative hne hdigits =>
    rw [value_sign] at hread
    obtain ⟨⟨number, behind⟩, hnumber, hv⟩ := Except.map_eq_ok_iff.1 hread
    obtain ⟨rfl, -⟩ := Prod.mk.inj hv
    rw [List.cons_append, value_sign, unsignedNumber_of_ok hne hdigits hnumber hrest]
    rfl

/-- **A whole number within its bounds is read back**, sign included. -/
theorem value_intText {n : Int} (hlow : -(greatestNegated : Int) ≤ n) (hhigh : n ≤ greatestWhole)
    (hrest : Ends rest) (steps depth : Nat) :
    value (steps + 1) depth (intText n ++ rest) = .ok (.number (.int n), rest) := by
  have hbound : greatestNegated ≤ greatestWhole := by decide
  have hread : value 1 0 (intText n) = .ok (.number (.int n), []) := by
    unfold intText
    split
    · have hfits : ¬ (decide (n.natAbs = 0) || decide (greatestNegated < n.natAbs)) = true := by
        rw [Bool.or_eq_true, decide_eq_true_eq, decide_eq_true_eq]
        omega
      have hvalue : -(n.natAbs : Int) = n := by omega
      rw [value_sign, unsignedNumber_toDigits false (by omega), whole, if_neg Bool.false_ne_true,
        if_neg hfits, hvalue]
      rfl
    · have hvalue : (n.natAbs : Int) = n := by omega
      obtain ⟨c, digits, hdigits⟩ :=
        List.exists_cons_of_ne_nil (Nat.toDigits_ne_nil (n := n.natAbs) (b := 10))
      have hdigit : c.isDigit = true := isDigit_of_mem_toDigits (m := n.natAbs) (by simp [hdigits])
      rw [hdigits, value_digit hdigit, ← hdigits, unsignedNumber_toDigits true (by omega), whole,
        if_pos rfl, hvalue]
      rfl
  exact value_of_integral (integral_intText n) hread hrest steps depth

end Json

end Trellis
