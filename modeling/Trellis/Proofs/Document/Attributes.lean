import Trellis.Document.Passage
import Trellis.Proofs.Text.Blank
import Trellis.Proofs.Text.Cut
import Trellis.Proofs.Text.Quoting
/-!
# Document — the attributes of a tag

A tag's attributes are names with quoted values, and nothing but blanks stands
between them. Two readers look at them: one that runs over the tag to find its
end, and one that takes the attributes apart. Both see the same: a text of this
form is passed over whole (`Attributes.passes`), and exactly the texts of this
form with names that differ are taken apart, into what they were made of
(`attributesFrom_eq_ok_iff`).
-/

namespace Trellis

namespace Document

open Text.Quoting

variable {tag : String} {cs gap name value rest : List Char} {c : Char}
  {found out : Keyed String} {entries : List (String × String)}

/-- Whether a text is the name of an attribute. -/
def isName : List Char → Bool
  | [] => false
  | c :: cs => isNameStart c && cs.all isNameChar

/-- **The attributes of a tag as they stand in it**, with their names and values
in order. Each value stands in quotes of a kind that it does not hold. -/
inductive Attributes : List Char → List (String × String) → Prop where
  | nil {cs : List Char} (blank : Text.isBlankText cs = true) : Attributes cs []
  | cons {gap name before behind value rest : List Char} {quote : Char}
      {entries : List (String × String)} (apart : Text.isBlankText gap = true)
      (named : isName name = true) (before_blank : Text.isBlankText before = true)
      (behind_blank : Text.isBlankText behind = true) (quoted : quote = '"' ∨ quote = '\'')
      (closed : quote ∉ value) (more : Attributes rest entries) :
      Attributes (gap ++ (name ++ (before ++ '=' :: (behind ++ quote :: (value ++ quote :: rest)))))
        ((String.ofList name, String.ofList value) :: entries)

/-! ## What characters cannot be -/

theorem range_of_isAlphanum (h : c.isAlphanum = true) :
    48 ≤ c.toNat ∧ c.toNat ≤ 57 ∨ 65 ≤ c.toNat ∧ c.toNat ≤ 90 ∨
      97 ≤ c.toNat ∧ c.toNat ≤ 122 := by
  have h : ((decide (0x41 ≤ c.val ∧ c.val ≤ 0x5A) ||
      (decide (0x61 ≤ c.val) && decide (c.val ≤ 0x7A))) ||
      (decide (0x30 ≤ c.val) && decide (c.val ≤ 0x39))) = true := h
  simp only [Bool.or_eq_true, Bool.and_eq_true, decide_eq_true_eq, UInt32.le_iff_toNat_le] at h
  have h : (65 ≤ c.toNat ∧ c.toNat ≤ 90 ∨ 97 ≤ c.toNat ∧ c.toNat ≤ 122) ∨
      48 ≤ c.toNat ∧ c.toNat ≤ 57 := h
  omega

/-- A blank belongs to no name. -/
theorem isNameChar_of_isBlank (h : Text.isBlank c = true) : isNameChar c = false := by
  have hletter : ¬ c.isAlphanum = true := by
    intro halpha
    have hrange := range_of_isAlphanum halpha
    simp only [Text.isBlank, Bool.or_eq_true, Bool.and_eq_true, decide_eq_true_eq, beq_iff_eq] at h
    omega
  have hne (d : Char) (hd : Text.isBlank d = false) : c ≠ d := Text.ne_of_isBlank h hd
  simp [isNameChar, hletter, hne '_' (by decide), hne ':' (by decide), hne '-' (by decide)]

theorem isNameChar_of_isNameStart (h : isNameStart c = true) : isNameChar c = true := by
  simp only [isNameStart, isNameChar, Char.isAlphanum, Bool.or_eq_true] at h ⊢
  tauto

/-- A blank starts no name. -/
theorem isNameStart_of_isBlank (h : Text.isBlank c = true) : isNameStart c = false := by
  by_contra hstart
  have hname := isNameChar_of_isNameStart (Bool.of_not_eq_false hstart)
  rw [isNameChar_of_isBlank h] at hname
  cases hname

/-- A name is passed over by whoever looks for the end of a tag. -/
theorem ne_of_isNameChar (h : isNameChar c = true) : c ≠ '>' ∧ c ≠ '=' := by
  constructor
  · rintro rfl
    revert h
    decide
  · rintro rfl
    revert h
    decide

theorem all_of_isName (h : isName name = true) : name.all isNameChar = true := by
  cases name with
  | nil => rfl
  | cons c cs =>
    rw [isName, Bool.and_eq_true] at h
    rw [List.all_cons, isNameChar_of_isNameStart h.1, h.2]
    rfl

/-! ## One attribute -/

/-- A name ends at the equals sign behind it, or at the blanks before that. -/
theorem span_name {before : List Char} (hname : name.all isNameChar = true)
    (hbefore : Text.isBlankText before = true) (rest : List Char) :
    (name ++ (before ++ '=' :: rest)).takeWhile isNameChar = name ∧
      (name ++ (before ++ '=' :: rest)).dropWhile isNameChar = before ++ '=' :: rest := by
  refine Text.span_append hname fun c hc => ?_
  cases before with
  | nil =>
    obtain rfl : '=' = c := Option.some.inj hc
    decide
  | cons b before =>
    obtain rfl : b = c := Option.some.inj hc
    exact isNameChar_of_isBlank (List.all_eq_true.1 hbefore b List.mem_cons_self)

/-- **The attribute that a text starts with.** -/
theorem leadingAttribute?_eq_some_iff :
    leadingAttribute? cs = some (name, value, rest) ↔
      ∃ before behind quote, isName name = true ∧ Text.isBlankText before = true ∧
        Text.isBlankText behind = true ∧ (quote = '"' ∨ quote = '\'') ∧ quote ∉ value ∧
        cs = name ++ (before ++ '=' :: (behind ++ quote :: (value ++ quote :: rest))) := by
  constructor
  · intro h
    unfold leadingAttribute? at h
    split at h
    · cases h
    · next c cs =>
      split at h
      · next hstart =>
        split at h
        · next inner hequals =>
          split at h
          · next quote quoted hquoted =>
            split at h
            · next hquote =>
              simp only [Option.map_eq_some_iff, Prod.mk.injEq, Prod.exists] at h
              obtain ⟨v, r, hcut, rfl, rfl, rfl⟩ := h
              obtain ⟨-, before, hbefore, heq⟩ := Text.trimStart_eq_cons_iff.1 hequals
              obtain ⟨-, behind, hbehind, rfl⟩ := Text.trimStart_eq_cons_iff.1 hquoted
              have hclosed : quote ∉ v := fun hmem =>
                Text.absent_of_cut? (List.cons_ne_nil _ _) hcut
                  ((List.singleton_infix_iff _ _).2 hmem)
              refine ⟨before, behind, quote, ?_, hbefore, hbehind, hquote, hclosed, ?_⟩
              · rw [isName, hstart, Bool.true_and]
                exact List.all_takeWhile
              · rw [Text.eq_of_cut? hcut] at heq
                rw [List.cons_append, List.cons.injEq]
                refine ⟨rfl, ?_⟩
                have hsplit : cs.takeWhile isNameChar ++ cs.dropWhile isNameChar = cs :=
                  List.takeWhile_append_dropWhile
                rw [heq] at hsplit
                simpa using hsplit.symm
            · cases h
          · cases h
        · cases h
      · cases h
  · rintro ⟨before, behind, quote, hname, hbefore, hbehind, hquote, hclosed, rfl⟩
    cases name with
    | nil => cases hname
    | cons c name =>
      rw [isName, Bool.and_eq_true] at hname
      obtain ⟨hstart, hname⟩ := hname
      obtain ⟨htake, hdrop⟩ := span_name hname hbefore (behind ++ quote :: (value ++ quote :: rest))
      have hequals : Text.trimStart (before ++ '=' :: (behind ++ quote :: (value ++ quote :: rest))) =
          '=' :: (behind ++ quote :: (value ++ quote :: rest)) :=
        Text.trimStart_append hbefore (by decide)
      have hquote' : Text.isBlank quote = false := by
        rcases hquote with rfl | rfl <;> decide
      have hquoted : Text.trimStart (behind ++ quote :: (value ++ quote :: rest)) =
          quote :: (value ++ quote :: rest) :=
        Text.trimStart_append hbehind hquote'
      have hcut : Text.cut? [quote] (value ++ quote :: rest) = some (value, rest) :=
        Text.cut?_of_not_mem hclosed [] rest
      simp [leadingAttribute?, hstart, htake, hdrop, hequals, hquoted, hquote, hcut]

/-! ## All of them -/

theorem attributesFrom_of_some (h : leadingAttribute? cs = some (name, value, rest)) :
    attributesFrom tag gap found cs =
      if !Text.isBlankText gap then
        .error (.unexpectedText (String.ofList (Text.trim gap.reverse)) tag)
      else if found.contains (String.ofList name) then
        .error (.repeatedAttribute (String.ofList name) tag)
      else attributesFrom tag [] (found.insert (String.ofList name) (String.ofList value)) rest := by
  rw [attributesFrom]
  split
  · next hlead =>
    rw [hlead] at h
    obtain ⟨rfl, rfl, rfl⟩ : _ ∧ _ ∧ _ := by simpa using h
    rfl
  · next hlead =>
    rw [hlead] at h
    cases h

theorem attributesFrom_cons_of_none (h : leadingAttribute? (c :: cs) = none) :
    attributesFrom tag gap found (c :: cs) = attributesFrom tag (c :: gap) found cs := by
  rw [attributesFrom]
  split
  · next hlead =>
    rw [hlead] at h
    cases h
  · rfl

theorem attributesFrom_nil :
    attributesFrom tag gap found [] =
      if Text.isBlankText gap then .ok found
      else .error (.unexpectedText (String.ofList (Text.trim gap.reverse)) tag) := by
  rw [attributesFrom]
  rfl

/-- Blanks are passed over. -/
theorem attributesFrom_blanks {blanks : List Char} (h : Text.isBlankText blanks = true) :
    attributesFrom tag gap found (blanks ++ cs) =
      attributesFrom tag (blanks.reverse ++ gap) found cs := by
  induction blanks generalizing gap with
  | nil => rfl
  | cons b blanks ih =>
    rw [Text.isBlankText, List.all_cons, Bool.and_eq_true] at h
    obtain ⟨hb, hblanks⟩ := h
    have hnone : leadingAttribute? (b :: (blanks ++ cs)) = none := by
      simp [leadingAttribute?, isNameStart_of_isBlank hb]
    rw [List.cons_append, attributesFrom_cons_of_none hnone, ih hblanks]
    simp

/-- What is found is put in under its name, one entry after the other. -/
def insertAll (found : Keyed String) (entries : List (String × String)) : Keyed String :=
  entries.foldl (fun found entry => found.insert entry.1 entry.2) found

/-- Names that are neither repeated nor there already. -/
def Fresh (found : Keyed String) (entries : List (String × String)) : Prop :=
  (entries.map Prod.fst).Nodup ∧ ∀ entry ∈ entries, found.contains entry.1 = false

theorem fresh_nil : Fresh found [] :=
  ⟨List.nodup_nil, fun _ h => absurd h List.not_mem_nil⟩

theorem fresh_cons_iff {name value : String} :
    Fresh found ((name, value) :: entries) ↔
      found.contains name = false ∧ Fresh (found.insert name value) entries := by
  simp only [Fresh, List.map_cons, List.nodup_cons, List.forall_mem_cons, Keyed.contains_insert,
    Bool.or_eq_false_iff, decide_eq_false_iff_not, List.mem_map, not_exists, not_and]
  constructor
  · rintro ⟨⟨hnot, hnodup⟩, hname, hrest⟩
    exact ⟨hname, hnodup, fun entry hentry =>
      ⟨Ne.symm (hnot entry hentry), hrest entry hentry⟩⟩
  · rintro ⟨hname, hnodup, hrest⟩
    exact ⟨⟨fun entry hentry => Ne.symm (hrest entry hentry).1, hnodup⟩, hname,
      fun entry hentry => (hrest entry hentry).2⟩

/-- Attributes with names that are new are all found. -/
theorem Attributes.attributesFrom_eq (h : Attributes cs entries) (hfresh : Fresh found entries) :
    attributesFrom tag [] found cs = .ok (insertAll found entries) := by
  induction h generalizing found with
  | @nil cs hblank =>
    rw [← List.append_nil cs, attributesFrom_blanks hblank, attributesFrom_nil, if_pos]
    · rfl
    · rw [List.append_nil, Text.isBlankText_reverse, hblank]
  | @cons gap name before behind value rest quote entries hapart hname hbefore hbehind hquote
      hclosed hmore ih =>
    obtain ⟨hnew, hfresh⟩ := fresh_cons_iff.1 hfresh
    have hlead : leadingAttribute?
        (name ++ (before ++ '=' :: (behind ++ quote :: (value ++ quote :: rest)))) =
        some (name, value, rest) :=
      leadingAttribute?_eq_some_iff.2
        ⟨before, behind, quote, hname, hbefore, hbehind, hquote, hclosed, rfl⟩
    have hgap : Text.isBlankText gap.reverse = true := by rw [Text.isBlankText_reverse, hapart]
    rw [attributesFrom_blanks hapart, List.append_nil, attributesFrom_of_some hlead, hgap, hnew,
      ih hfresh]
    rfl

/-- What is found stands in the text. -/
theorem exists_attributes (h : attributesFrom tag gap found cs = .ok out) :
    Text.isBlankText gap = true ∧ ∃ entries, Attributes (gap.reverse ++ cs) entries ∧
      Fresh found entries ∧ out = insertAll found entries := by
  induction hlen : cs.length using Nat.strongRecOn generalizing gap found cs with
  | ind n ih =>
    cases hlead : leadingAttribute? cs with
    | some lead =>
      obtain ⟨name, value, rest⟩ := lead
      have hshorter : rest.length < n := hlen ▸ length_of_leadingAttribute? hlead
      rw [attributesFrom_of_some hlead] at h
      split at h
      · cases h
      · next hblank =>
        split at h
        · cases h
        · next hnew =>
          obtain ⟨before, behind, quote, hname, hbefore, hbehind, hquote, hclosed, rfl⟩ :=
            leadingAttribute?_eq_some_iff.1 hlead
          obtain ⟨-, entries, hmore, hfresh, hout⟩ := ih rest.length hshorter h rfl
          have hgap : Text.isBlankText gap = true := by simpa using hblank
          have hapart : Text.isBlankText gap.reverse = true := by rw [Text.isBlankText_reverse, hgap]
          exact ⟨hgap, _, .cons hapart hname hbefore hbehind hquote hclosed hmore,
            fresh_cons_iff.2 ⟨Bool.of_not_eq_true hnew, hfresh⟩, hout⟩
    | none =>
      cases cs with
      | nil =>
        rw [attributesFrom_nil] at h
        split at h
        · next hgap =>
          have hblank : Text.isBlankText (gap.reverse ++ []) = true := by
            rw [List.append_nil, Text.isBlankText_reverse, hgap]
          exact ⟨hgap, [], .nil hblank, fresh_nil, (Except.ok.inj h).symm⟩
        · cases h
      | cons c cs =>
        rw [attributesFrom_cons_of_none hlead] at h
        rw [List.length_cons] at hlen
        obtain ⟨hgap, entries, hattributes, hfresh, hout⟩ := ih cs.length (by omega) h rfl
        rw [Text.isBlankText, List.all_cons, Bool.and_eq_true] at hgap
        rw [List.reverse_cons, List.append_assoc] at hattributes
        exact ⟨hgap.2, entries, hattributes, hfresh, hout⟩

/-- **The attributes of a tag** are the entries that stand in it, provided that no
name comes twice. -/
theorem attributesFrom_eq_ok_iff :
    attributesFrom tag [] [] cs = .ok out ↔
      ∃ entries, Attributes cs entries ∧ (entries.map Prod.fst).Nodup ∧
        out = Keyed.ofList entries := by
  constructor
  · intro h
    obtain ⟨-, entries, hattributes, hfresh, hout⟩ := exists_attributes h
    exact ⟨entries, hattributes, hfresh.1, hout⟩
  · rintro ⟨entries, hattributes, hnodup, rfl⟩
    exact hattributes.attributesFrom_eq ⟨hnodup, fun _ _ => rfl⟩

/-- **Attributes are passed over whole** by whoever looks for the end of a tag. -/
theorem Attributes.passes (h : Attributes cs entries) : Passes Text.isBlank cs := by
  have hblanks {blanks : List Char} (hblank : Text.isBlankText blanks = true) :
      Passes Text.isBlank blanks :=
    passes_of_forall fun c hc =>
      ⟨Text.ne_of_isBlankText hblank (by decide) c hc, Text.ne_of_isBlankText hblank (by decide) c hc⟩
  induction h with
  | nil hblank => exact hblanks hblank
  | @cons gap name before behind value rest quote entries hapart hname hbefore hbehind hquote
      hclosed hmore ih =>
    have hletters : Passes Text.isBlank name :=
      passes_of_forall fun c hc => ne_of_isNameChar (List.all_eq_true.1 (all_of_isName hname) c hc)
    have hvalue : Passes Text.isBlank ('=' :: (behind ++ quote :: (value ++ [quote]))) := by
      refine passes_value (fun c hc => ⟨List.all_eq_true.1 hbehind c hc, ?_, ?_, ?_⟩) hquote hclosed
      all_goals exact Text.ne_of_isBlankText hbehind (by decide) c hc
    have hwhole := (hblanks hapart).append
      (hletters.append ((hblanks hbefore).append (hvalue.append ih)))
    simpa using hwhole

end Document

end Trellis
