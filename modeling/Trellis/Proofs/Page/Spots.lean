import Trellis.Proofs.Page.Attributes
/-!
# Page — where an attribute stands

An attribute that has a value stands somewhere in its tag: a name that starts where the
reader of the tag is outside of all others, an equals sign, and the value as it is
written, with blanks between them (`Spot`). The reader finds it there
(`Reader.mem_read_attribute`), and it finds no other: what it completes is what it is in
the midst of, or starts further on (`Reader.yields_or_later`). So the attributes of a tag
are told from its text alone (`hasAttribute_iff`).
-/

namespace Trellis

namespace Page

open Text.Quoting

namespace Reader

variable {s : Reader} {a : Attribute} {c : Char} {cs name value : List Char}

/-! ## What is read from where the reader is -/

/-- A text from a value on, with the blanks before it. -/
def Valued (value cs : List Char) : Prop :=
  ∃ after shown behind, cs = after ++ (shown ++ behind) ∧
    (∀ c ∈ after, Text.isPageBlank c = true) ∧ Written value shown behind

/-- A text from the blanks behind the name of an attribute on. -/
def Assigned (value cs : List Char) : Prop :=
  ∃ gap rest, cs = gap ++ '=' :: rest ∧ (∀ c ∈ gap, Text.isPageBlank c = true) ∧ Valued value rest

theorem Valued.blank (hc : Text.isPageBlank c = true) (h : Valued value cs) :
    Valued value (c :: cs) := by
  obtain ⟨after, shown, behind, rfl, hafter, hwritten⟩ := h
  exact ⟨c :: after, shown, behind, rfl, List.forall_mem_cons.2 ⟨hc, hafter⟩, hwritten⟩

theorem Valued.of_written {shown behind : List Char} (h : Written value shown behind) :
    Valued value (shown ++ behind) :=
  ⟨[], shown, behind, rfl, List.forall_mem_nil _, h⟩

theorem Assigned.blank (hc : Text.isPageBlank c = true) (h : Assigned value cs) :
    Assigned value (c :: cs) := by
  obtain ⟨gap, rest, rfl, hgap, hvalued⟩ := h
  exact ⟨c :: gap, rest, rfl, List.forall_mem_cons.2 ⟨hc, hgap⟩, hvalued⟩

theorem Valued.assigned (h : Valued value cs) : Assigned value ('=' :: cs) :=
  ⟨[], cs, rfl, List.forall_mem_nil _, h⟩

/-- **What becomes of the attribute that the reader is in the midst of**, by what it is
in the midst of. -/
inductive Yields (a : Attribute) : Reader → List Char → Prop where
  | name {name letters rest : List Char} (hname : a.name = name ++ letters)
      (hletters : ∀ c ∈ letters, isAttributeChar c = true) (hrest : Assigned a.value rest) :
      Yields a (inName name) (letters ++ rest)
  | gap {cs : List Char} (h : Assigned a.value cs) : Yields a (behindName a.name) cs
  | equals {cs : List Char} (h : Valued a.value cs) : Yields a (behindEquals a.name) cs
  | quoted {quote : Char} {value more : List Char} (hvalue : a.value = value ++ more)
      (hmore : quote ∉ more) (behind : List Char) :
      Yields a (inQuotes a.name quote value) (more ++ quote :: behind)
  | unclosed {quote : Char} {value more : List Char} (hvalue : a.value = value ++ more)
      (hmore : quote ∉ more) : Yields a (inQuotes a.name quote value) more
  | bare {value more behind : List Char} {t t' : Text.Quoting} (hvalue : a.value = value ++ more)
      (hmore : valueAfter? t more = some t')
      (hbehind : ∀ c ∈ behind.head?, endsValue t' c = true) :
      Yields a (inValue a.name value t) (more ++ behind)

/-- That an attribute starts further on, where a name may start. -/
structure Later (a : Attribute) (s : Reader) (cs front rest : List Char) : Prop where
  text : cs = front ++ (a.name ++ rest)
  opens : ∃ s', s.past? front = some s' ∧ s'.Opens
  letters : ∀ c ∈ a.name, isAttributeChar c = true
  assigned : Assigned a.value rest

theorem Later.cons {front rest : List Char} (hends : ¬ s.quoting.ends c = true)
    (h : Later a (s.step c).2 cs front rest) : Later a s (c :: cs) (c :: front) rest where
  text := congrArg (c :: ·) h.text
  opens := by
    rw [past?, if_neg hends]
    exact h.opens
  letters := h.letters
  assigned := h.assigned

/-! ## One character -/

theorem Yields.of_endsValue {t : Text.Quoting} (h : ∀ c ∈ cs.head?, endsValue t c = true) :
    Yields a (inValue a.name a.value t) cs :=
  @Yields.bare _ a.value [] cs t t (List.append_nil a.value).symm rfl h

/-- An attribute that ends at a character has its value by then. -/
theorem yields_of_mem_step (h : a ∈ (s.step c).1) (hends : ¬ s.quoting.ends c = true)
    (hvalue : a.value ≠ []) : Yields a s (c :: cs) := by
  cases s with
  | between => exact absurd h List.not_mem_nil
  | inName name =>
    simp only [step] at h
    split at h
    · exact absurd h List.not_mem_nil
    split at h
    · rw [List.mem_singleton.1 h] at hvalue
      exact absurd rfl hvalue
    · split at h <;> exact absurd h List.not_mem_nil
  | behindName name =>
    simp only [step] at h
    split at h
    · exact absurd h List.not_mem_nil
    split at h
    · exact absurd h List.not_mem_nil
    · rw [List.mem_singleton.1 h] at hvalue
      exact absurd rfl hvalue
  | behindEquals name =>
    simp only [step] at h
    split at h
    · exact absurd h List.not_mem_nil
    · split at h <;> exact absurd h List.not_mem_nil
  | inQuotes name quote value =>
    simp only [step] at h
    split at h
    · next hquote =>
      obtain rfl := List.mem_singleton.1 h
      subst hquote
      exact .quoted (List.append_nil value).symm List.not_mem_nil cs
    · exact absurd h List.not_mem_nil
  | inValue name value quoting =>
    simp only [step] at h
    split at h
    · next hend =>
      obtain rfl := List.mem_singleton.1 h
      have hbehind : ∀ d ∈ (c :: cs).head?, endsValue quoting d = true := by
        rintro d ⟨rfl⟩
        rw [endsValue, hend, Bool.or_true]
      exact .of_endsValue hbehind
    · exact absurd h List.not_mem_nil

/-- A name that starts is that of a later attribute, save where it is none. -/
theorem later_of_yields_start (hs : s.Opens) (hends : c ≠ '>') (hname : a.name ≠ [])
    (h : Yields a (start c) cs) : ∃ front rest, Later a s (c :: cs) front rest := by
  unfold start at h
  split at h
  · cases h
  · next hblank =>
    rw [Bool.or_eq_true, beq_iff_eq, not_or, Bool.not_eq_true] at hblank
    split at h
    · -- an equals sign with no name before it
      generalize hnil : ([] : List Char) = word at h
      cases h
      exact absurd hnil.symm hname
    · next hequals =>
      cases h with
      | @name _ letters rest hletters hchars hrest =>
        have hc : isAttributeChar c = true :=
          isAttributeChar_iff.2 ⟨hblank.1, hblank.2, hends, hequals⟩
        refine ⟨[], rest, ?_, ⟨s, rfl, hs⟩, ?_, hrest⟩
        · rw [hletters]
          rfl
        · rw [hletters]
          exact List.forall_mem_cons.2 ⟨hc, hchars⟩

/-! What the reader is in the midst of behind a character it was in the midst of before. -/

theorem Yields.of_assigned (h : Assigned a.value cs) : Yields a (inName a.name) cs :=
  @Yields.name _ a.name [] cs (List.append_nil _).symm (List.forall_mem_nil _) h

theorem yields_of_step_inName (hend : c ≠ '>') (h : Yields a ((inName name).step c).2 cs) :
    Yields a (inName name) (c :: cs) := by
  simp only [step] at h
  split at h
  · next hblank =>
    cases h with
    | gap h => exact .of_assigned (h.blank hblank)
  split at h
  · cases h
  split at h
  · next hequals =>
    subst hequals
    cases h with
    | equals h => exact .of_assigned h.assigned
  · next hblank hslash hequals =>
    have hc : isAttributeChar c = true :=
      isAttributeChar_iff.2 ⟨Bool.eq_false_iff.2 hblank, hslash, hend, hequals⟩
    cases h with
    | @name _ letters rest hletters hchars hrest =>
      rw [List.append_assoc] at hletters
      exact .name hletters (List.forall_mem_cons.2 ⟨hc, hchars⟩) hrest

theorem yields_of_step_behindEquals (hends : ¬ Text.Quoting.afterEquals.ends c = true)
    (h : Yields a ((behindEquals name).step c).2 cs) : Yields a (behindEquals name) (c :: cs) := by
  simp only [step] at h
  split at h
  · next hblank =>
    cases h with
    | equals h => exact .equals (h.blank hblank)
  split at h
  · next hquote =>
    -- the quote opens the value, and what it holds is all of it
    cases h with
    | @quoted _ _ more hvalue hmore behind =>
      obtain rfl : a.value = more := hvalue
      have hvalued := Valued.of_written (.quoted hquote hmore behind)
      rw [List.cons_append, List.append_assoc] at hvalued
      exact .equals hvalued
    | unclosed hvalue hmore =>
      obtain rfl : a.value = cs := hvalue
      have hvalued := Valued.of_written (.unclosed hquote hmore)
      rw [List.append_nil] at hvalued
      exact .equals hvalued
  · next hblank hquote =>
    rw [not_or] at hquote
    cases h with
    | @bare _ more behind _ t hvalue hmore hbehind =>
      have hgoes : ¬ endsValue .afterEquals c = true := by simpa [endsValue] using hends
      have hafter : valueAfter? .afterEquals a.value = some t := by
        rw [hvalue, List.singleton_append, valueAfter?, if_neg hgoes]
        exact hmore
      have hvalued := Valued.of_written
        (.bare ⟨c, more, hvalue, hquote.1, hquote.2, Bool.eq_false_iff.2 hblank⟩ hafter hbehind)
      have htext : a.value ++ behind = c :: (more ++ behind) := by
        rw [hvalue]
        rfl
      exact .equals (htext ▸ hvalued)

theorem yields_of_step_inQuotes {quote : Char}
    (h : Yields a ((inQuotes name quote value).step c).2 cs) :
    Yields a (inQuotes name quote value) (c :: cs) := by
  simp only [step] at h
  split at h
  · cases h
  · next hquote =>
    have hfresh {more : List Char} (hmore : quote ∉ more) : quote ∉ c :: more := by
      rw [List.mem_cons, not_or]
      exact ⟨Ne.symm hquote, hmore⟩
    cases h with
    | quoted hvalue hmore behind =>
      rw [List.append_assoc] at hvalue
      exact .quoted hvalue (hfresh hmore) behind
    | unclosed hvalue hmore =>
      rw [List.append_assoc] at hvalue
      exact .unclosed hvalue (hfresh hmore)

theorem yields_of_step_inValue {quoting : Text.Quoting} (hends : ¬ quoting.ends c = true)
    (h : Yields a ((inValue name value quoting).step c).2 cs) :
    Yields a (inValue name value quoting) (c :: cs) := by
  simp only [step] at h
  split at h
  · cases h
  · next hgoes =>
    cases h with
    | @bare _ more behind _ t hvalue hmore hbehind =>
      have hnot : ¬ endsValue quoting c = true := by
        rw [endsValue, Bool.or_eq_true, not_or]
        exact ⟨hends, hgoes⟩
      have hafter : valueAfter? quoting (c :: more) = some t := by
        rw [valueAfter?, if_neg hnot]
        exact hmore
      rw [List.append_assoc] at hvalue
      exact .bare hvalue hafter hbehind

/-- **It was in the midst of that before, or it starts with the character.** -/
theorem yields_or_later_of_step (hends : ¬ s.quoting.ends c = true) (hname : a.name ≠ [])
    (h : Yields a (s.step c).2 cs) :
    Yields a s (c :: cs) ∨ ∃ front rest, Later a s (c :: cs) front rest := by
  cases s with
  | between =>
    have hend : c ≠ '>' := by simpa [quoting, ends] using hends
    exact .inr (later_of_yields_start trivial hend hname h)
  | inName name =>
    have hend : c ≠ '>' := by simpa [quoting, ends] using hends
    exact .inl (yields_of_step_inName hend h)
  | behindName name =>
    have hend : c ≠ '>' := by simpa [quoting, ends] using hends
    simp only [step] at h
    split at h
    · next hblank =>
      cases h with
      | gap h => exact .inl (.gap (h.blank hblank))
    split at h
    · next hequals =>
      subst hequals
      cases h with
      | equals h => exact .inl (.gap h.assigned)
    · exact .inr (later_of_yields_start trivial hend hname h)
  | behindEquals name => exact .inl (yields_of_step_behindEquals hends h)
  | inQuotes name quote value => exact .inl (yields_of_step_inQuotes h)
  | inValue name value quoting => exact .inl (yields_of_step_inValue hends h)

/-! ## A whole text -/

/-- The attribute that the end of the tag leaves has its value by then. -/
theorem yields_of_mem_pending (h : a ∈ s.pending) (hvalue : a.value ≠ [])
    (hends : ∀ c ∈ cs.head?, s.quoting.ends c = true) : Yields a s cs := by
  cases s with
  | between => exact absurd h List.not_mem_nil
  | inName | behindName | behindEquals =>
    rw [List.mem_singleton.1 h] at hvalue
    exact absurd rfl hvalue
  | inQuotes name quote value =>
    obtain rfl := List.mem_singleton.1 h
    -- nothing ends the tag in quotes, so the text is at its end
    cases cs with
    | nil => exact .unclosed (List.append_nil value).symm List.not_mem_nil
    | cons c cs => cases hends c rfl
  | inValue name value quoting =>
    obtain rfl := List.mem_singleton.1 h
    have hbehind : ∀ c ∈ cs.head?, endsValue quoting c = true := by
      intro c hc
      rw [endsValue, Bool.or_eq_true]
      exact .inl (hends c hc)
    exact .of_endsValue hbehind

/-- **Whatever is read was started before, or starts further on.** -/
theorem yields_or_later (h : a ∈ s.read cs) (hname : a.name ≠ []) (hvalue : a.value ≠ []) :
    Yields a s cs ∨ ∃ front rest, Later a s cs front rest := by
  induction cs generalizing s with
  | nil => exact .inl (yields_of_mem_pending h hvalue (by simp))
  | cons c cs ih =>
    rw [read] at h
    split at h
    · next hends =>
      refine .inl (yields_of_mem_pending h hvalue ?_)
      rintro d ⟨rfl⟩
      exact hends
    · next hends =>
      rcases List.mem_append.1 h with hdone | hmore
      · exact .inl (yields_of_mem_step hdone hends hvalue)
      · rcases ih hmore with hyields | ⟨front, rest, hlater⟩
        · exact yields_or_later_of_step hends hname hyields
        · exact .inr ⟨c :: front, rest, hlater.cons hends⟩

end Reader

/-! ## Attributes of a tag -/

/-- A tag around one of its attributes, in parts. -/
structure Spot where
  /-- The tag's name, right behind the character that the tag starts with. -/
  word : List Char
  /-- What stands before the attribute. -/
  front : List Char
  /-- The attribute's name. -/
  name : List Char
  /-- What stands between the name and the equals sign. -/
  gap : List Char
  /-- What stands between the equals sign and the value. -/
  after : List Char
  /-- The value, with its quotes if it has any. -/
  shown : List Char
  /-- All that follows in the tag. -/
  behind : List Char

namespace Spot

/-- The text of the tag. -/
def text (f : Spot) : List Char :=
  '<' :: (f.word ++ (f.front ++
    (f.name ++ (f.gap ++ '=' :: (f.after ++ (f.shown ++ f.behind))))))

/-- **That an attribute of a name, whatever its case, stands there with a value**: where the
reader of the tag, by the rule that finds the tag's end, is outside of the names and the
values of all others, a name, an equals sign and the whole value, with blanks of a tag at
most between them. -/
structure Of (f : Spot) (name : String) (value : List Char) : Prop where
  word : ∀ c ∈ f.word, isTagNameChar c = true
  /-- The tag's name ends there. -/
  apart : ∀ c ∈ (f.front ++ f.name).head?, isTagNameChar c = false
  front : ∃ s, Reader.between.past? f.front = some s ∧ s.Opens
  name : Text.sameIgnoringCase f.name name.toList = true
  letters : ∀ c ∈ f.name, isAttributeChar c = true
  gap : ∀ c ∈ f.gap, Text.isPageBlank c = true
  after : ∀ c ∈ f.after, Text.isPageBlank c = true
  value : Reader.Written value f.shown f.behind

end Spot

variable {text value : List Char} {name : String}

/-- What is the same as a name is one. -/
theorem ne_nil_of_sameIgnoringCase {word : List Char} (hname : name ≠ "")
    (h : Text.sameIgnoringCase word name.toList = true) : word ≠ [] := by
  rintro rfl
  have hlower : [] = name.toList.map Char.toLower := beq_iff_eq.1 h
  have hnil : name.toList = [] := List.map_eq_nil_iff.1 hlower.symm
  exact hname (String.toList_eq_nil_iff.1 hnil)

/-- The attributes of a tag are read from behind its name. -/
theorem tagAttributes_append_of_head? {word rest : List Char}
    (hword : ∀ c ∈ word, isTagNameChar c = true)
    (hrest : ∀ c ∈ rest.head?, isTagNameChar c = false) :
    tagAttributes ('<' :: (word ++ rest)) = Reader.between.read rest := by
  have hdrop : rest.dropWhile isTagNameChar = rest := by
    cases rest with
    | nil => rfl
    | cons c rest => exact List.dropWhile_cons_of_neg (by simp [hrest c rfl])
  rw [tagAttributes, List.dropWhile_append_of_pos hword, hdrop]

/-- **A tag has exactly the attributes that stand in it.** -/
theorem hasAttribute_iff (hname : name ≠ "") (hvalue : value ≠ []) :
    HasAttribute text name value ↔ ∃ f : Spot, f.text = text ∧ f.Of name value := by
  constructor
  · rintro ⟨a, ha, hsame, rfl⟩
    have hne := ne_nil_of_sameIgnoringCase hname hsame
    unfold tagAttributes at ha
    split at ha
    · next cs =>
      rcases Reader.yields_or_later ha hne hvalue with hyields | ⟨front, rest, hlater⟩
      · cases hyields
      · obtain ⟨gap, more, rfl, hgap, after, shown, behind, rfl, hafter, hwritten⟩ :=
          hlater.assigned
        refine ⟨⟨tagName cs, front, a.name, gap, after, shown, behind⟩, ?_, ⟨?_, ?_,
          hlater.opens, hsame, hlater.letters, hgap, hafter, hwritten⟩⟩
        · rw [Spot.text, tagName, ← hlater.text, List.takeWhile_append_dropWhile]
        · exact fun c hc => List.mem_takeWhile_imp hc
        · intro c hc
          have hnot := List.head?_dropWhile_not isTagNameChar cs
          rw [hlater.text, ← List.append_assoc, List.head?_append, hc] at hnot
          exact hnot
    · exact absurd ha List.not_mem_nil
  · rintro ⟨f, rfl, hf⟩
    have hne := ne_nil_of_sameIgnoringCase hname hf.name
    obtain ⟨s, hpast, hopens⟩ := hf.front
    obtain ⟨done, hread⟩ := Reader.exists_read_of_past? hpast
    have hmem := Reader.mem_read_attribute hopens hne hf.letters hf.gap hf.after hf.value
    refine ⟨⟨f.name, value⟩, ?_, hf.name, rfl⟩
    rw [Spot.text, tagAttributes_append_of_head? hf.word, hread]
    · exact List.mem_append_right done hmem
    · have hstarts : f.front ++ f.name ≠ [] := fun hnil => hne (List.append_eq_nil_iff.1 hnil).2
      rw [← List.append_assoc, List.head?_append_of_ne_nil _ hstarts]
      exact hf.apart

/-- A name may start behind a slash and behind a quote that ends a value, not in a value. -/
example : tagAttributes "<br/id=a t='x'ID= 'b' u=id=c/>".toList =
    [⟨"id".toList, "a".toList⟩, ⟨"t".toList, "x".toList⟩, ⟨"ID".toList, "b".toList⟩,
      ⟨"u".toList, "id=c/".toList⟩] := by
  decide +kernel

end Page

end Trellis
