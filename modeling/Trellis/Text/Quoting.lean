import Trellis.Text.Blank
/-!
# Text — where a tag ends

A tag ends at the first `>` outside quoted values. A quote opens a value only
as the first character after an equals sign that is not blank; elsewhere it is
a character like any other. Which characters are blank is up to the reader of
the tag.
-/

namespace Trellis

namespace Text

/-- How far a reader is inside a tag. -/
inductive Quoting where
  | bare
  | afterEquals
  | inside (quote : Char)
  deriving DecidableEq, Repr

namespace Quoting

/-- The state after a character that does not end the tag. -/
def step (blank : Char → Bool) (s : Quoting) (c : Char) : Quoting :=
  match s with
  | inside q => if c = q then bare else inside q
  | afterEquals =>
    if c = '"' ∨ c = '\'' then inside c
    else if c = '=' ∨ blank c then afterEquals
    else bare
  | bare => if c = '=' then afterEquals else bare

/-- Whether a character ends the tag. -/
def ends (s : Quoting) (c : Char) : Bool :=
  match s with
  | inside _ => false
  | _ => c == '>'

/-- The text of a tag before its `>`, and the rest behind it. -/
def cut? (blank : Char → Bool) (s : Quoting) : List Char → Option (List Char × List Char)
  | [] => none
  | c :: cs =>
    if s.ends c then some ([], cs)
    else (cut? blank (s.step blank c) cs).map fun (inner, rest) => (c :: inner, rest)

/-- **A tag's text and the rest make up the text.** -/
theorem eq_of_cut? {blank : Char → Bool} {s : Quoting} {cs inner rest : List Char}
    (h : s.cut? blank cs = some (inner, rest)) : cs = inner ++ '>' :: rest := by
  induction cs generalizing s inner with
  | nil => simp [cut?] at h
  | cons c cs ih =>
    simp only [cut?] at h
    split at h
    · next hends =>
      obtain ⟨rfl, rfl⟩ := Prod.mk.inj (Option.some.inj h)
      cases s <;> simp_all [ends]
    · simp only [Option.map_eq_some_iff, Prod.mk.injEq, Prod.exists] at h
      obtain ⟨i, r, hcut, rfl, rfl⟩ := h
      simp [ih hcut]

end Quoting

end Text

end Trellis
