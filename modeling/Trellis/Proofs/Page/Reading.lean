import Trellis.Proofs.Page.Element
/-!
# Page — a script element as it is read

How a reader of a page takes a script element apart: the attributes of its tag
and the text up to its end tag. A name ends at a blank, a slash or an equals
sign, a value stands in quotes of either kind or ends at a blank, and of two
attributes with one name the first counts. An element as it is written comes
apart into what it was written from (`scriptParts?_scriptElement`,
`attributesWithin_writtenAttribute`).
-/

namespace Trellis

namespace Page

open Text.Quoting

variable {attributes body : List Char}

/-- An attribute of a tag, its value as it is written. -/
structure Attribute where
  /-- The name. -/
  name : List Char
  /-- The value, references included. -/
  value : List Char
  deriving DecidableEq, Repr

/-- Whether a character belongs to an attribute's name. -/
def isAttributeChar (c : Char) : Bool :=
  !(Text.isPageBlank c || c == '/' || c == '>' || c == '=')

/-- The value behind an equals sign, and the rest of the tag. -/
def attributeValue (cs : List Char) : List Char × List Char :=
  match cs.dropWhile Text.isPageBlank with
  | '"' :: behind => (Text.cut? ['"'] behind).getD (behind, [])
  | '\'' :: behind => (Text.cut? ['\''] behind).getD (behind, [])
  | cs => cs.span fun c => !Text.isPageBlank c

/-- The attributes of a tag, read behind its name, and no more than so many. -/
def attributesWithin : Nat → List Char → List Attribute
  | 0, _ => []
  | count + 1, cs =>
    match cs.dropWhile fun c => Text.isPageBlank c || c == '/' with
    | [] => []
    | cs =>
      let name := cs.takeWhile isAttributeChar
      match (cs.dropWhile isAttributeChar).dropWhile Text.isPageBlank with
      | '=' :: behind =>
        let (value, rest) := attributeValue behind
        ⟨name, value⟩ :: attributesWithin count rest
      | rest => ⟨name, []⟩ :: attributesWithin count rest

/-- The value of an attribute, by its name in any case. A tag has no more
attributes than characters. -/
def attribute? (name : String) (cs : List Char) : Option (List Char) :=
  ((attributesWithin cs.length cs).find? fun a =>
    Text.sameIgnoringCase a.name name.toList).map Attribute.value

/-- The attributes of a script element's tag and the text inside of the
element. -/
def scriptParts? (cs : List Char) : Option (List Char × List Char) := do
  let behind ← Text.behind? "<script".toList cs
  let (attributes, contents) ← bare.cut? Text.isPageBlank behind
  let (body, _) ← Text.cut? "</script>".toList contents
  return (attributes, body)

/-- **A written script element comes apart** into its attributes and its
content. -/
theorem scriptParts?_scriptElement (hattributes : Passes Text.isPageBlank attributes)
    (hbody : '<' ∉ body) : scriptParts? (scriptElement attributes body) = some (attributes, body) := by
  have hbehind : Text.behind? "<script".toList (scriptElement attributes body) =
      some (attributes ++ '>' :: (body ++ "</script>".toList)) := by
    rw [Text.behind?_eq_some_iff]
    simp [scriptElement]
  have hcut : bare.cut? Text.isPageBlank (attributes ++ '>' :: (body ++ "</script>".toList)) =
      some (attributes, body ++ "</script>".toList) := by
    rw [hattributes]
    simp [cut?, ends]
  have hend : Text.cut? "</script>".toList (body ++ "</script>".toList) = some (body, []) :=
    Text.cut?_of_not_mem hbody "/script>".toList []
  unfold scriptParts?
  rw [hbehind]
  simp only [Option.bind_eq_bind, Option.bind_some, hcut, hend, pure]

/-- **A written attribute is read as its name and its escaped value**, and the
reader goes on behind it. -/
theorem attributesWithin_writtenAttribute {name : String} (hne : name.toList ≠ [])
    (hname : ∀ c ∈ name.toList, isAttributeChar c = true) (value rest : List Char) (count : Nat) :
    attributesWithin (count + 1) (writtenAttribute name value ++ rest) =
      ⟨name.toList, Escape.page value⟩ :: attributesWithin count rest := by
  obtain ⟨c, letters, hletters⟩ := List.exists_cons_of_ne_nil hne
  have hwritten : writtenAttribute name value ++ rest =
      ' ' :: (name.toList ++ '=' :: '"' :: (Escape.page value ++ '"' :: rest)) := by
    simp [writtenAttribute]
  have hcut : Text.cut? ['"'] (Escape.page value ++ '"' :: rest) = some (Escape.page value, rest) :=
    Text.cut?_of_not_mem (Escape.quote_not_mem_page value) [] rest
  have hvalue : attributeValue ('"' :: (Escape.page value ++ '"' :: rest)) =
      (Escape.page value, rest) := by
    simp [attributeValue, Text.isPageBlank, hcut]
  -- the blank in front is passed over, and nothing of the name with it
  have hlead : (writtenAttribute name value ++ rest).dropWhile
      (fun c => Text.isPageBlank c || c == '/') =
      name.toList ++ '=' :: '"' :: (Escape.page value ++ '"' :: rest) := by
    have hc : (Text.isPageBlank c || c == '/') = false := by
      have hattribute := hname c (by simp [hletters])
      simp only [isAttributeChar, Bool.not_eq_true', Bool.or_eq_false_iff] at hattribute
      rw [hattribute.1.1.1, hattribute.1.1.2]
      rfl
    rw [hwritten, hletters, List.dropWhile_cons_of_pos (by decide), List.cons_append,
      List.dropWhile_cons_of_neg (by simp [hc])]
  have htake : (name.toList ++ '=' :: '"' :: (Escape.page value ++ '"' :: rest)).takeWhile
      isAttributeChar = name.toList := by
    rw [List.takeWhile_append_of_pos hname, List.takeWhile_cons_of_neg (by decide), List.append_nil]
  have hdrop : (name.toList ++ '=' :: '"' :: (Escape.page value ++ '"' :: rest)).dropWhile
      isAttributeChar = '=' :: '"' :: (Escape.page value ++ '"' :: rest) := by
    rw [List.dropWhile_append_of_pos hname, List.dropWhile_cons_of_neg (by decide)]
  rw [attributesWithin, hlead]
  split
  · next heq => simp at heq
  · rw [htake, hdrop, List.dropWhile_cons_of_neg (by decide)]
    simp only [hvalue]

end Page

end Trellis
