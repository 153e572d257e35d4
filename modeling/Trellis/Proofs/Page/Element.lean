import Trellis.Proofs.Escape
import Trellis.Proofs.Page.Order
import Trellis.Proofs.Text.Quoting
/-!
# Page — a script element as it is written

A script element whose attributes are escaped for a page and whose content
holds no `<` is read as one closed construct, whatever follows it
(`construct?_scriptElement`).
-/

namespace Trellis

namespace Page

open Text.Quoting

variable {attributes body rest : List Char}

/-- An attribute as it is written, its value escaped. -/
def writtenAttribute (name : String) (value : List Char) : List Char :=
  ' ' :: name.toList ++ "=\"".toList ++ Escape.page value ++ "\"".toList

/-- A script element as it is written. -/
def scriptElement (attributes body : List Char) : List Char :=
  '<' :: "script".toList ++ attributes ++ '>' :: body ++ "</script>".toList

/-- A written attribute is led by a blank, which ends the name before it. -/
theorem isTagNameChar_head?_writtenAttribute (name : String) (value rest : List Char) :
    ∀ c ∈ (writtenAttribute name value ++ rest).head?, isTagNameChar c = false := by
  intro c hc
  have hblank : c = ' ' := (Option.some.inj hc).symm
  rw [hblank]
  decide

/-- A written attribute is passed over. -/
theorem passes_attribute {name : String} (hname : ∀ c ∈ name.toList, c ≠ '>' ∧ c ≠ '=')
    (value : List Char) : Passes Text.isPageBlank (writtenAttribute name value) := by
  have hquote := Escape.quote_not_mem_page value
  have hlead : Passes Text.isPageBlank (' ' :: name.toList) := by
    refine passes_of_forall fun c hc => ?_
    rcases List.mem_cons.1 hc with rfl | hc
    · decide
    · exact hname c hc
  have hvalue : Passes Text.isPageBlank ('=' :: ([] ++ '"' :: (Escape.page value ++ ['"']))) :=
    passes_value (List.forall_mem_nil _) (.inl rfl) hquote
  have heq : writtenAttribute name value =
      (' ' :: name.toList) ++ ('=' :: '"' :: (Escape.page value ++ ['"'])) := by
    simp [writtenAttribute]
  rw [heq]
  exact hlead.append hvalue

/-- Content without a `<` runs to the end tag. -/
theorem throughEndTag?_of_not_mem (hbody : '<' ∉ body) (rest : List Char) :
    throughEndTag? "script".toList (body ++ ("</script>".toList ++ rest)) =
      some (body ++ "</script>".toList, rest) := by
  induction body with
  | nil => simp [throughEndTag?, startsEndTag, Text.sameIgnoringCase, endsName, Text.cut?, Text.behind?]
  | cons c body ih =>
    have hc : c ≠ '<' := fun e => hbody (e ▸ List.mem_cons_self)
    have htail := ih fun hmem => hbody (List.mem_cons_of_mem c hmem)
    have hstarts : startsEndTag "script".toList (c :: (body ++ ("</script>".toList ++ rest))) = false := by
      unfold startsEndTag
      split
      · next heq => exact absurd (List.cons.inj heq).1 hc
      · rfl
    rw [List.cons_append, throughEndTag?, hstarts, htail]
    simp

/-- **A written script element is one closed construct**, whatever follows. -/
theorem construct?_scriptElement (hattributes : Passes Text.isPageBlank attributes)
    (hhead : ∀ c ∈ attributes.head?, isTagNameChar c = false) (hbody : '<' ∉ body)
    (rest : List Char) :
    construct? (scriptElement attributes body ++ rest) =
      some ⟨.script, scriptElement attributes body, rest, true⟩ := by
  have hname : tagName ("script".toList ++ attributes) = "script".toList := by
    exact (Text.span_append (by decide) hhead).1
  have hcut : bare.cut? Text.isPageBlank
      ("script".toList ++ attributes ++ '>' :: (body ++ ("</script>".toList ++ rest))) =
      some ("script".toList ++ attributes, body ++ ("</script>".toList ++ rest)) := by
    have hscript : Passes Text.isPageBlank "script".toList := passes_of_forall (by simp)
    rw [hscript.append hattributes]
    simp [cut?, ends]
  have htag : tagBehind
      ("script".toList ++ attributes ++ '>' :: (body ++ ("</script>".toList ++ rest))) =
      ⟨.script, scriptElement attributes body, rest, true⟩ := by
    have hraw : rawKind? "script".toList = some .script := by decide
    unfold tagBehind
    rw [hcut]
    dsimp only
    rw [hname, hraw]
    dsimp only
    rw [throughEndTag?_of_not_mem hbody rest]
    simp [scriptElement]
  have hwritten : scriptElement attributes body ++ rest =
      '<' :: ("script".toList ++ attributes ++ '>' :: (body ++ ("</script>".toList ++ rest))) := by
    simp [scriptElement]
  rw [hwritten, construct?, htag]
  simp [Text.behind?, startsTag]

/-! ## Script elements one after another -/

/-- The pieces of script elements that follow one another from an offset on. -/
def scriptPieces (offset : Nat) : List (List Char) → List Piece
  | [] => []
  | element :: elements =>
    let stop := offset + Text.width element
    ⟨⟨offset, stop, .script, true⟩, element⟩ :: scriptPieces stop elements

variable {offset : Nat} {elements : List (List Char)}

/-- The scan finds each of them. -/
theorem piecesFrom_flatten (offset : Nat)
    (h : ∀ element ∈ elements, ∀ rest,
      construct? (element ++ rest) = some ⟨.script, element, rest, true⟩) :
    piecesFrom offset elements.flatten = scriptPieces offset elements := by
  induction elements generalizing offset with
  | nil => simp [scriptPieces]
  | cons element elements ih =>
    have hfirst := h element List.mem_cons_self elements.flatten
    have hrest := ih (offset + Text.width element) fun later hlater =>
      h later (List.mem_cons_of_mem element hlater)
    rw [List.flatten_cons, piecesFrom_of_some hfirst, hrest]
    rfl

theorem map_text_scriptPieces (offset : Nat) (elements : List (List Char)) :
    (scriptPieces offset elements).map Piece.text = elements := by
  induction elements generalizing offset with
  | nil => rfl
  | cons element elements ih => simp [scriptPieces, ih]

theorem mem_scriptPieces {piece : Piece} (h : piece ∈ scriptPieces offset elements) :
    piece.span.kind = .script ∧ piece.span.closed = true := by
  induction elements generalizing offset with
  | nil => cases h
  | cons element elements ih =>
    rcases List.mem_cons.1 h with rfl | h
    · exact ⟨rfl, rfl⟩
    · exact ih h

/-- They leave no gap. -/
theorem tiles_scriptPieces (offset : Nat) (elements : List (List Char)) :
    Tiles offset (offset + Text.width elements.flatten)
      ((scriptPieces offset elements).map Piece.span) := by
  induction elements generalizing offset with
  | nil => rfl
  | cons element elements ih =>
    refine ⟨rfl, ?_⟩
    rw [List.flatten_cons, Text.width_append, ← Nat.add_assoc]
    exact ih (offset + Text.width element)

end Page

end Trellis
