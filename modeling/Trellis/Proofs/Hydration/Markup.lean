import Trellis.Hydration.Payload
import Trellis.Proofs.Page.Element
import Trellis.Proofs.Page.Restart
/-!
# Hydration — a payload's markup keeps to itself

Three escapings stand between data and the page's scan: one of attributes, one
of strings, one of script elements. Together they leave nothing in a name, a
value or a nonce that could end an element, so the markup of a payload is two
closed script elements for each window and nothing else (`spans_markup`).
-/

namespace Trellis

namespace Hydration

namespace Payload

open Page Text.Quoting

variable {nonce : Option String} {window : String} {value : Json.Value}

/-- The attributes of the element that holds a window's data. -/
def dataAttributes (nonce : Option String) (window : String) : List Char :=
  writtenAttribute "type" "application/json".toList ++ writtenAttribute "id" (elementId window) ++
    nonceAttribute nonce

/-- The script that hands a window's data over. -/
def handover (window : String) : List Char :=
  "window[".toList ++ scriptString window.toList ++
    "]=JSON.parse(document.getElementById(".toList ++ scriptString (elementId window) ++
    ").textContent);".toList

/-- The element with the data is a script element with its attributes. -/
theorem dataElement_eq (nonce : Option String) (window : String) (value : Json.Value) :
    dataElement nonce window value =
      scriptElement (dataAttributes nonce window) (Escape.script value.written) := by
  have htype : Escape.page "application/json".toList = "application/json".toList := by decide
  unfold dataElement scriptElement dataAttributes writtenAttribute
  rw [htype]
  simp

/-- So is the one that hands them over. -/
theorem handoverElement_eq (nonce : Option String) (window : String) :
    handoverElement nonce window = scriptElement (nonceAttribute nonce) (handover window) := by
  unfold handoverElement scriptElement handover
  simp

/-- A nonce is an attribute like others, or nothing. -/
theorem nonceAttribute_some (nonce : String) :
    nonceAttribute (some nonce) = writtenAttribute "nonce" nonce.toList := by
  unfold nonceAttribute writtenAttribute
  simp

theorem passes_nonceAttribute (nonce : Option String) :
    Passes Text.isPageBlank (nonceAttribute nonce) := by
  cases nonce with
  | none => exact passes_nil
  | some nonce =>
    rw [nonceAttribute_some]
    exact passes_attribute (by simp) _

theorem passes_dataAttributes (nonce : Option String) (window : String) :
    Passes Text.isPageBlank (dataAttributes nonce window) :=
  ((passes_attribute (by simp) _).append (passes_attribute (by simp) _)).append
    (passes_nonceAttribute nonce)

/-- No string of a script holds a `<`. -/
theorem not_mem_handover (window : String) : '<' ∉ handover window := by
  have hstring (cs : List Char) : '<' ∉ scriptString cs :=
    Escape.lt_not_mem_script (Json.quoted cs)
  unfold handover
  simp [hstring]

/-- **The data stay inside of their element**, whatever they are. -/
theorem construct?_dataElement (nonce : Option String) (window : String) (value : Json.Value)
    (rest : List Char) :
    construct? (dataElement nonce window value ++ rest) =
      some ⟨.script, dataElement nonce window value, rest, true⟩ := by
  rw [dataElement_eq]
  refine construct?_scriptElement (passes_dataAttributes nonce window) ?_ ?_ rest
  · rw [dataAttributes, List.append_assoc]
    exact isTagNameChar_head?_writtenAttribute _ _ _
  · exact Escape.lt_not_mem_script value.written

/-- **So does the handover.** -/
theorem construct?_handoverElement (nonce : Option String) (window : String) (rest : List Char) :
    construct? (handoverElement nonce window ++ rest) =
      some ⟨.script, handoverElement nonce window, rest, true⟩ := by
  rw [handoverElement_eq]
  refine construct?_scriptElement (passes_nonceAttribute nonce) ?_ (not_mem_handover window) rest
  cases nonce with
  | none =>
    intro c hc
    cases hc
  | some nonce =>
    rw [nonceAttribute_some, ← List.append_nil (writtenAttribute "nonce" nonce.toList)]
    exact isTagNameChar_head?_writtenAttribute _ _ _

/-- The elements of a payload's markup, two for each window. -/
def elements (nonce : Option String) (payload : Payload) : List (List Char) :=
  payload.flatMap fun (window, value) =>
    [dataElement nonce window value, handoverElement nonce window]

/-- The markup is its elements and nothing else. -/
theorem markup_eq_flatten (nonce : Option String) (payload : Payload) :
    markup nonce payload = (elements nonce payload).flatten := by
  induction payload with
  | nil => rfl
  | cons entry payload ih =>
    have htail : markup nonce (entry :: payload) =
        dataElement nonce entry.1 entry.2 ++ handoverElement nonce entry.1 ++
          markup nonce payload := rfl
    rw [htail, ih]
    simp [elements]

theorem length_elements (nonce : Option String) (payload : Payload) :
    (elements nonce payload).length = 2 * payload.length := by
  induction payload with
  | nil => rfl
  | cons entry payload ih =>
    simp only [elements, List.flatMap_cons, List.length_append, List.length_cons,
      List.length_nil] at ih ⊢
    omega

/-- **The scan of a payload's markup finds its elements.** -/
theorem pieces_markup (nonce : Option String) (payload : Payload) :
    (scan (markup nonce payload)).pieces = scriptPieces 0 (elements nonce payload) := by
  rw [markup_eq_flatten]
  refine piecesFrom_flatten 0 fun element helement rest => ?_
  obtain ⟨⟨window, value⟩, -, hmem⟩ := List.mem_flatMap.1 helement
  simp only [List.mem_cons, List.not_mem_nil, or_false] at hmem
  rcases hmem with rfl | rfl
  · exact construct?_dataElement nonce window value rest
  · exact construct?_handoverElement nonce window rest

/-- **A payload's markup is two closed script elements for each window**, from
its start to its end and without a gap; so it keeps to itself. -/
theorem spans_markup (nonce : Option String) (payload : Payload) :
    (scan (markup nonce payload)).spans.length = 2 * payload.length ∧
      (∀ s ∈ (scan (markup nonce payload)).spans, s.kind = .script ∧ s.closed = true) ∧
      Tiles 0 (Text.width (markup nonce payload)) (scan (markup nonce payload)).spans ∧
      SelfContained (markup nonce payload) := by
  have hspans : (scan (markup nonce payload)).spans =
      (scriptPieces 0 (elements nonce payload)).map Piece.span :=
    congrArg (List.map Piece.span) (pieces_markup nonce payload)
  have hlength : (scan (markup nonce payload)).spans.length = 2 * payload.length := by
    have htexts := congrArg List.length (map_text_scriptPieces 0 (elements nonce payload))
    rw [hspans, List.length_map, ← length_elements nonce payload, ← htexts, List.length_map]
  have hscripts : ∀ s ∈ (scan (markup nonce payload)).spans,
      s.kind = .script ∧ s.closed = true := by
    intro s hs
    rw [hspans] at hs
    obtain ⟨piece, hpiece, rfl⟩ := List.mem_map.1 hs
    exact mem_scriptPieces hpiece
  have htiles : Tiles 0 (Text.width (markup nonce payload)) (scan (markup nonce payload)).spans := by
    have hlaid := tiles_scriptPieces 0 (elements nonce payload)
    rwa [Nat.zero_add, ← hspans, ← markup_eq_flatten] at hlaid
  refine ⟨hlength, hscripts, htiles, ?_, fun s hs => (hscripts s hs).2, fun hne => ?_⟩
  · intro hne
    cases payload with
    | nil => exact absurd rfl hne
    | cons entry payload => rfl
  · refine htiles.stop_getLast? fun hnil => hne ?_
    rw [hnil, List.length_nil] at hlength
    rw [List.length_eq_zero_iff.1 (by omega : payload.length = 0)]
    rfl

end Payload

end Hydration

end Trellis
