import Trellis.Proofs.Page.Reading
import Trellis.Proofs.Page.RawText
/-!
# Page — the attributes of a tag

A reader of attributes goes through a tag by the rule that finds the tag's end: a value
is in quotes if a quote is the first character behind an equals sign that is no blank,
and what is in quotes is no attribute. So at each character the reader is in the state
that the search for the end is in (`quoting_step`). Where that search is outside of
values, a name may start behind a blank (`Reader.opens_step_of_isPageBlank`), and where
one may start, a name, an equals sign and a value are an attribute, whatever was read
before (`Reader.mem_read_attribute`).
-/

namespace Trellis

namespace Page

open Text.Quoting

/-- How far a reader of attributes is. -/
inductive Reader where
  /-- Before a name. -/
  | between
  /-- In a name. -/
  | inName (name : List Char)
  /-- At the blanks behind a name. -/
  | behindName (name : List Char)
  /-- Behind an equals sign. -/
  | behindEquals (name : List Char)
  /-- In a value in quotes. -/
  | inQuotes (name : List Char) (quote : Char) (value : List Char)
  /-- In a value without quotes around it. -/
  | inValue (name value : List Char) (quoting : Text.Quoting)
  deriving Repr

namespace Reader

/-- What the search for the end of the tag knows. -/
def quoting : Reader → Text.Quoting
  | between => .bare
  | inName _ => .bare
  | behindName _ => .bare
  | behindEquals _ => .afterEquals
  | inQuotes _ quote _ => .inside quote
  | inValue _ _ quoting => quoting

/-- The attribute that is read if the tag ends. -/
def pending : Reader → List Attribute
  | between => []
  | inName name => [⟨name, []⟩]
  | behindName name => [⟨name, []⟩]
  | behindEquals name => [⟨name, []⟩]
  | inQuotes name _ value => [⟨name, value⟩]
  | inValue name value _ => [⟨name, value⟩]

/-- Where a character between attributes leads. -/
def start (c : Char) : Reader :=
  if Text.isPageBlank c || c == '/' then between
  else if c = '=' then behindEquals []
  else inName [c]

/-- The attributes that a character completes, and where it leads. A slash ends a name
but no value. -/
def step (s : Reader) (c : Char) : List Attribute × Reader :=
  match s with
  | between => ([], start c)
  | inName name =>
    if Text.isPageBlank c then ([], behindName name)
    else if c = '/' then ([⟨name, []⟩], between)
    else if c = '=' then ([], behindEquals name)
    else ([], inName (name ++ [c]))
  | behindName name =>
    if Text.isPageBlank c then ([], behindName name)
    else if c = '=' then ([], behindEquals name)
    else ([⟨name, []⟩], start c)
  | behindEquals name =>
    if Text.isPageBlank c then ([], behindEquals name)
    else if c = '"' ∨ c = '\'' then ([], inQuotes name c [])
    else ([], inValue name [c] (afterEquals.step Text.isPageBlank c))
  | inQuotes name quote value =>
    if c = quote then ([⟨name, value⟩], between) else ([], inQuotes name quote (value ++ [c]))
  | inValue name value quoting =>
    if quoting = .bare && Text.isPageBlank c then ([⟨name, value⟩], between)
    else ([], inValue name (value ++ [c]) (quoting.step Text.isPageBlank c))

/-- The attributes of a text up to the end of the tag. -/
def read (s : Reader) : List Char → List Attribute
  | [] => s.pending
  | c :: cs => if s.quoting.ends c then s.pending else (s.step c).1 ++ read (s.step c).2 cs

end Reader

/-- The attributes of a tag, from its text. -/
def tagAttributes : List Char → List Attribute
  | '<' :: cs => Reader.between.read (cs.dropWhile isTagNameChar)
  | _ => []

/-- Whether a tag has an attribute of a name, whatever its case, with a value. -/
def HasAttribute (text : List Char) (name : String) (value : List Char) : Prop :=
  ∃ a ∈ tagAttributes text, Text.sameIgnoringCase a.name name.toList = true ∧ a.value = value

namespace Reader

variable {s : Reader} {c : Char} {cs rest inner name value gap : List Char} {t : Text.Quoting}

/-! ## The reader and the search for the end -/

theorem quoting_start (c : Char) : (start c).quoting = bare.step Text.isPageBlank c := by
  unfold start Text.Quoting.step
  split
  · next hc =>
    have hne : c ≠ '=' := by
      rintro rfl
      revert hc
      decide
    rw [if_neg hne]
    rfl
  · split <;> rfl

/-- No blank is an equals sign or a quote. -/
theorem ne_of_isPageBlank (h : Text.isPageBlank c = true) :
    c ≠ '=' ∧ c ≠ '"' ∧ c ≠ '\'' ∧ c ≠ '>' := by
  refine ⟨?_, ?_, ?_, ?_⟩ <;> rintro rfl <;> revert h <;> decide

/-- **At each character the reader goes on as the search for the end does.** -/
theorem quoting_step (s : Reader) (c : Char) :
    (s.step c).2.quoting = s.quoting.step Text.isPageBlank c := by
  cases s with
  | between => exact quoting_start c
  | inName name =>
    simp only [step]
    split
    · next hblank => simp [quoting, Text.Quoting.step, (ne_of_isPageBlank hblank).1]
    · split
      · next hslash => simp [quoting, Text.Quoting.step, hslash]
      · split
        · next hequals => simp [quoting, Text.Quoting.step, hequals]
        · next hequals => simp [quoting, Text.Quoting.step, hequals]
  | behindName name =>
    simp only [step]
    split
    · next hblank => simp [quoting, Text.Quoting.step, (ne_of_isPageBlank hblank).1]
    · split
      · next hequals => simp [quoting, Text.Quoting.step, hequals]
      · exact quoting_start c
  | behindEquals name =>
    simp only [step]
    split
    · next hblank =>
      obtain ⟨-, hdouble, hsingle, -⟩ := ne_of_isPageBlank hblank
      simp [quoting, Text.Quoting.step, hdouble, hsingle, hblank]
    · split
      · next hquote => simp [quoting, Text.Quoting.step, hquote]
      · rfl
  | inQuotes name quote value =>
    simp only [step]
    split
    · next hquote => simp [quoting, Text.Quoting.step, hquote]
    · next hquote => simp [quoting, Text.Quoting.step, hquote]
  | inValue name value quoting =>
    simp only [step]
    split
    · next hend =>
      rw [Bool.and_eq_true, decide_eq_true_eq] at hend
      obtain ⟨rfl, hblank⟩ := hend
      simp [Reader.quoting, Text.Quoting.step, (ne_of_isPageBlank hblank).1]
    · rfl

/-- Where a text leads the reader, if the tag does not end in it. -/
def past? (s : Reader) : List Char → Option Reader
  | [] => some s
  | c :: cs => if s.quoting.ends c then none else (s.step c).2.past? cs

/-- There the search for the end is as well. -/
theorem map_quoting_past? (s : Reader) (cs : List Char) :
    (s.past? cs).map quoting = s.quoting.after? Text.isPageBlank cs := by
  induction cs generalizing s with
  | nil => rfl
  | cons c cs ih =>
    rw [past?, after?]
    split
    · rfl
    · rw [ih, quoting_step]

/-- What is read of a text does not depend on what follows. -/
theorem exists_read_of_past? {s' : Reader} (h : s.past? cs = some s') :
    ∃ done, ∀ rest, s.read (cs ++ rest) = done ++ s'.read rest := by
  induction cs generalizing s with
  | nil =>
    obtain rfl := Option.some.inj h
    exact ⟨[], fun rest => rfl⟩
  | cons c cs ih =>
    rw [past?] at h
    split at h
    · cases h
    · next hends =>
      obtain ⟨done, hread⟩ := ih h
      refine ⟨(s.step c).1 ++ done, fun rest => ?_⟩
      rw [List.cons_append, read, if_neg hends, hread, List.append_assoc]

/-- **Whatever was read before, the reader goes on in the state of the search.** -/
theorem exists_read_append (h : s.quoting.after? Text.isPageBlank cs = some t) :
    ∃ done s', Reader.quoting s' = t ∧ ∀ rest, s.read (cs ++ rest) = done ++ s'.read rest := by
  rw [← map_quoting_past?, Option.map_eq_some_iff] at h
  obtain ⟨s', hpast, hs'⟩ := h
  obtain ⟨done, hread⟩ := exists_read_of_past? hpast
  exact ⟨done, s', hs', hread⟩

/-- What stands behind the tag is not read. -/
theorem read_of_cut? (h : s.quoting.cut? Text.isPageBlank cs = some (inner, rest)) :
    s.read cs = s.read (inner ++ ['>']) := by
  obtain ⟨rfl, t, hafter, houtside⟩ := cut?_eq_some_iff.1 h
  obtain ⟨done, s', hs', hread⟩ := exists_read_append hafter
  have hends : s'.quoting.ends '>' = true := by
    rw [hs']
    cases t with
    | inside quote => exact absurd rfl (houtside quote)
    | bare | afterEquals => rfl
  rw [hread, hread, read, read, if_pos hends, if_pos hends]

/-! ## One attribute -/

theorem read_cons (h : ¬ s.quoting.ends c = true) (cs : List Char) :
    s.read (c :: cs) = (s.step c).1 ++ (s.step c).2.read cs := by
  rw [read, if_neg h]

theorem not_ends (hs : s.quoting = .bare) (h : c ≠ '>') : ¬ s.quoting.ends c = true := by
  rw [hs]
  simp [ends, h]

/-- Whether a name may start at the next character. -/
def Opens : Reader → Prop
  | between => True
  | behindName _ => True
  | _ => False

/-- Outside of values a blank leads to where a name may start. -/
theorem opens_step_of_isPageBlank (hs : s.quoting = .bare) (hblank : Text.isPageBlank c = true) :
    (s.step c).2.Opens := by
  cases s with
  | between => simp [step, start, hblank, Opens]
  | inName name | behindName name => simp [step, hblank, Opens]
  | behindEquals | inQuotes => cases hs
  | inValue name value quoting =>
    obtain rfl : quoting = .bare := hs
    simp [step, hblank, Opens]

theorem isAttributeChar_iff :
    isAttributeChar c = true ↔ Text.isPageBlank c = false ∧ c ≠ '/' ∧ c ≠ '>' ∧ c ≠ '=' := by
  simp [isAttributeChar, and_assoc]

theorem start_of_isAttributeChar (hc : isAttributeChar c = true) : start c = inName [c] := by
  obtain ⟨hblank, hslash, -, hequals⟩ := isAttributeChar_iff.1 hc
  simp [start, hblank, hslash, hequals]

/-- There a character of a name starts one. -/
theorem exists_read_of_opens (hs : s.Opens) (hc : isAttributeChar c = true) :
    ∃ done, ∀ rest, s.read (c :: rest) = done ++ (inName [c]).read rest := by
  have hstart := start_of_isAttributeChar hc
  obtain ⟨hblank, -, hend, hequals⟩ := isAttributeChar_iff.1 hc
  cases s with
  | between =>
    refine ⟨[], fun rest => ?_⟩
    rw [read_cons (not_ends rfl hend), step, hstart]
  | behindName name =>
    refine ⟨[⟨name, []⟩], fun rest => ?_⟩
    rw [read_cons (not_ends rfl hend)]
    simp [step, hblank, hequals, hstart]
  | inName | behindEquals | inQuotes | inValue => exact hs.elim

/-- A name goes on up to the first character of another kind. -/
theorem read_inName (h : ∀ c ∈ cs, isAttributeChar c = true) :
    (inName name).read (cs ++ rest) = (inName (name ++ cs)).read rest := by
  induction cs generalizing name with
  | nil => simp
  | cons c cs ih =>
    obtain ⟨hblank, hslash, hend, hequals⟩ := isAttributeChar_iff.1 (h c List.mem_cons_self)
    have hstep : (inName name).step c = ([], inName (name ++ [c])) := by
      simp [step, hblank, hslash, hequals]
    rw [List.cons_append, read_cons (not_ends rfl hend), hstep, List.nil_append,
      ih fun d hd => h d (List.mem_cons_of_mem c hd), List.append_assoc]
    rfl

/-- Blanks between the name and the equals sign are passed over, -/
theorem read_equals (h : ∀ c ∈ gap, Text.isPageBlank c = true) :
    (inName name).read (gap ++ '=' :: rest) = (behindEquals name).read rest := by
  have hbehind : (behindName name).read (gap ++ '=' :: rest) = (behindEquals name).read rest := by
    induction gap with
    | nil => simp [read, quoting, ends, step, Text.isPageBlank]
    | cons c gap ih =>
      have hblank := h c List.mem_cons_self
      have hmore := ih fun d hd => h d (List.mem_cons_of_mem c hd)
      rw [List.cons_append, read_cons (not_ends rfl (ne_of_isPageBlank hblank).2.2.2)]
      simp [step, hblank, hmore]
  cases gap with
  | nil => simp [read, quoting, ends, step, Text.isPageBlank]
  | cons c gap =>
    have hblank := h c List.mem_cons_self
    rw [List.cons_append, read_cons (not_ends rfl (ne_of_isPageBlank hblank).2.2.2)] at hbehind ⊢
    simpa [step, hblank] using hbehind

/-- and so are those behind it. -/
theorem read_behindEquals (h : ∀ c ∈ gap, Text.isPageBlank c = true) :
    (behindEquals name).read (gap ++ rest) = (behindEquals name).read rest := by
  induction gap with
  | nil => rfl
  | cons c gap ih =>
    have hblank := h c List.mem_cons_self
    have hmore := ih fun d hd => h d (List.mem_cons_of_mem c hd)
    have hend := (ne_of_isPageBlank hblank).2.2.2
    rw [List.cons_append, read]
    simp [quoting, ends, step, hblank, hend, hmore]

theorem read_inQuotes {quote : Char} (h : quote ∉ cs) :
    (inQuotes name quote value).read (cs ++ quote :: rest) =
      ⟨name, value ++ cs⟩ :: between.read rest := by
  induction cs generalizing value with
  | nil => simp [read, quoting, ends, step]
  | cons c cs ih =>
    have hc : c ≠ quote := fun e => h (e ▸ List.mem_cons_self)
    have hends : ¬ (inQuotes name quote value).quoting.ends c = true := by simp [quoting, ends]
    have hstep : (inQuotes name quote value).step c = ([], inQuotes name quote (value ++ [c])) := by
      simp [step, hc]
    rw [List.cons_append, read_cons hends, hstep, List.nil_append,
      ih fun hmem => h (List.mem_cons_of_mem c hmem), List.append_assoc]
    rfl

/-- Whether a character ends a value without quotes around it: as the end of the tag, or
as a blank that stands neither behind an equals sign nor in quotes. -/
def endsValue (t : Text.Quoting) (c : Char) : Bool :=
  t.ends c || (t = .bare && Text.isPageBlank c)

/-- Where a text leads the search for the end, if such a value does not end in it. -/
def valueAfter? (t : Text.Quoting) : List Char → Option Text.Quoting
  | [] => some t
  | c :: cs => if endsValue t c then none else valueAfter? (t.step Text.isPageBlank c) cs

theorem read_inValue_cons {quoting : Text.Quoting} (h : ¬ endsValue quoting c = true)
    (rest : List Char) : (inValue name value quoting).read (c :: rest) =
      (inValue name (value ++ [c]) (quoting.step Text.isPageBlank c)).read rest := by
  rw [endsValue, Bool.or_eq_true, not_or] at h
  rw [read_cons (s := inValue name value quoting) h.1, step, if_neg h.2, List.nil_append]

theorem read_inValue {quoting : Text.Quoting} (h : valueAfter? quoting cs = some t) :
    (inValue name value quoting).read (cs ++ rest) = (inValue name (value ++ cs) t).read rest := by
  induction cs generalizing value quoting with
  | nil =>
    cases h
    simp
  | cons c cs ih =>
    rw [valueAfter?] at h
    split at h
    · cases h
    · next hends =>
      rw [List.cons_append, read_inValue_cons hends, ih h, List.append_assoc]
      rfl

/-- A value ends with the tag or before a blank. -/
theorem mem_read_inValue (h : ∀ c ∈ cs.head?, endsValue t c = true) :
    ⟨name, value⟩ ∈ (inValue name value t).read cs := by
  cases cs with
  | nil => exact List.mem_singleton_self _
  | cons c cs =>
    have hends := h c rfl
    rw [read, quoting]
    split
    · exact List.mem_singleton_self _
    · next hgoes =>
      rw [endsValue, Bool.or_eq_true] at hends
      rw [step, if_pos (hends.resolve_left hgoes)]
      exact List.mem_append_left _ (List.mem_singleton_self _)

/-- **A value as it is written** behind an equals sign, and the text behind it: in quotes
that it does not hold, of which the second is missing if the page ends there, or as it is
where it goes on all through and what follows ends it. -/
inductive Written (value : List Char) : List Char → List Char → Prop where
  | quoted {quote : Char} (hquote : quote = '"' ∨ quote = '\'') (hvalue : quote ∉ value)
      (behind : List Char) : Written value (quote :: (value ++ [quote])) behind
  | unclosed {quote : Char} (hquote : quote = '"' ∨ quote = '\'') (hvalue : quote ∉ value) :
      Written value (quote :: value) []
  | bare {behind : List Char} {t : Text.Quoting}
      (hhead : ∃ c cs, value = c :: cs ∧ c ≠ '"' ∧ c ≠ '\'' ∧ Text.isPageBlank c = false)
      (hafter : valueAfter? .afterEquals value = some t)
      (hbehind : ∀ c ∈ behind.head?, endsValue t c = true) :
      Written value value behind

variable {shown behind after : List Char}

theorem read_quote {quote : Char} (hquote : quote = '"' ∨ quote = '\'') (rest : List Char) :
    (behindEquals name).read (quote :: rest) = (inQuotes name quote []).read rest := by
  have hblank : Text.isPageBlank quote = false := by
    rcases hquote with rfl | rfl <;> decide
  have hend : quote ≠ '>' := by rcases hquote with rfl | rfl <;> decide
  have hends : ¬ (behindEquals name).quoting.ends quote = true := by simp [quoting, ends, hend]
  rw [read_cons hends]
  simp [step, hblank, hquote]

theorem read_unclosed {quote : Char} (h : quote ∉ cs) :
    (inQuotes name quote value).read cs = [⟨name, value ++ cs⟩] := by
  induction cs generalizing value with
  | nil => simp [read, pending]
  | cons c cs ih =>
    have hc : c ≠ quote := fun e => h (e ▸ List.mem_cons_self)
    have hmore : quote ∉ cs := fun hmem => h (List.mem_cons_of_mem c hmem)
    have hends : ¬ (inQuotes name quote value).quoting.ends c = true := by simp [quoting, ends]
    rw [read_cons hends, step, if_neg hc, List.nil_append, ih hmore, List.append_assoc]
    rfl

theorem mem_read_of_written (h : Written value shown behind) :
    ⟨name, value⟩ ∈ (behindEquals name).read (shown ++ behind) := by
  cases h with
  | @quoted quote hquote hvalue behind =>
    rw [List.cons_append, List.append_assoc, List.cons_append, List.nil_append, read_quote hquote,
      read_inQuotes hvalue]
    exact List.mem_cons_self
  | @unclosed quote hquote hvalue =>
    rw [List.append_nil, read_quote hquote, read_unclosed hvalue]
    exact List.mem_cons_self
  | @bare behind t hhead hafter hbehind =>
    obtain ⟨c, cs, rfl, hdouble, hsingle, hblank⟩ := hhead
    rw [valueAfter?] at hafter
    split at hafter
    · cases hafter
    · next hends =>
      have hnot : ¬ (behindEquals name).quoting.ends c = true := by
        intro hend
        exact hends (by rw [endsValue, Bool.or_eq_true]; exact .inl hend)
      have hstep : (behindEquals name).step c =
          ([], inValue name [c] (Text.Quoting.afterEquals.step Text.isPageBlank c)) := by
        simp [step, hblank, hdouble, hsingle]
      rw [List.cons_append, read_cons hnot, hstep, List.nil_append, read_inValue hafter]
      exact mem_read_inValue hbehind

/-- **Where a name may start, a name, an equals sign and a written value are an
attribute.** -/
theorem mem_read_attribute (hs : s.Opens) (hne : name ≠ [])
    (hname : ∀ c ∈ name, isAttributeChar c = true) (hgap : ∀ c ∈ gap, Text.isPageBlank c = true)
    (hafter : ∀ c ∈ after, Text.isPageBlank c = true) (hvalue : Written value shown behind) :
    ⟨name, value⟩ ∈ s.read (name ++ (gap ++ '=' :: (after ++ (shown ++ behind)))) := by
  obtain ⟨c, letters, rfl⟩ := List.exists_cons_of_ne_nil hne
  obtain ⟨hc, hletters⟩ := List.forall_mem_cons.1 hname
  obtain ⟨done, hread⟩ := exists_read_of_opens hs hc
  rw [List.cons_append, hread, read_inName hletters, read_equals hgap, read_behindEquals hafter]
  exact List.mem_append_right done (mem_read_of_written hvalue)

end Reader

/-! ## The attributes of a tag -/

variable {text front attributes rest : List Char} {closed : Bool}

theorem dropWhile_append_cons {c : Char} (hc : isTagNameChar c = false) (front behind : List Char) :
    (front ++ c :: behind).dropWhile isTagNameChar =
      front.dropWhile isTagNameChar ++ c :: behind := by
  rw [List.dropWhile_append, List.dropWhile_cons_of_neg (by simp [hc])]
  split
  · next hempty => rw [List.isEmpty_iff.1 hempty, List.nil_append]
  · rfl

/-- The name of a tag leaves the search for its end where it was. -/
theorem after?_dropWhile_tagName (cs : List Char) :
    bare.after? Text.isPageBlank (cs.dropWhile isTagNameChar) =
      bare.after? Text.isPageBlank cs := by
  have hname : bare.after? Text.isPageBlank (tagName cs) = some bare := by
    refine after?_bare_of_forall fun c hc => ?_
    have hchar : isTagNameChar c = true := List.mem_takeWhile_imp hc
    constructor <;> rintro rfl <;> revert hchar <;> decide
  conv_rhs => rw [← List.takeWhile_append_dropWhile (p := isTagNameChar) (l := cs), after?_append]
  rw [tagName] at hname
  rw [hname, Option.bind_some]

/-- What is behind a tag adds no attributes. -/
theorem tagAttributes_append (h : construct? (text ++ rest) = some ⟨.tag, text, rest, closed⟩) :
    tagAttributes (text ++ rest) = tagAttributes text := by
  rcases comment_or_tagForm h with ⟨-, -, hkind⟩ | ⟨more, hmore, hform⟩
  · cases hkind
  · cases hform with
    | openTag => rw [List.append_nil]
    | @tag inner _ hcut hname =>
      obtain ⟨-, t, hafter, houtside⟩ := cut?_eq_some_iff.1 hcut
      have hattributes : bare.cut? Text.isPageBlank
          (inner.dropWhile isTagNameChar ++ '>' :: rest) =
          some (inner.dropWhile isTagNameChar, rest) :=
        cut?_eq_some_iff.2 ⟨rfl, t, by rw [after?_dropWhile_tagName, hafter], houtside⟩
      have hread := Reader.read_of_cut? (s := .between) hattributes
      have hgt : isTagNameChar '>' = false := by decide
      simp only [List.cons_append, List.append_assoc, List.nil_append, tagAttributes,
        dropWhile_append_cons hgt]
      exact hread
    | element hcut hname | openElement hcut hname =>
      obtain ⟨word, hword, -⟩ := rawKind?_eq_some_iff.1 hname
      cases hword

end Page

end Trellis
