import Mathlib.Data.List.Nodup
import Trellis.Proofs.Hydration.Markup
import Trellis.Proofs.Hydration.Windows
import Trellis.Proofs.Json.RoundTrip
import Trellis.Proofs.Page.Reading
/-!
# Hydration — what a reader gets back

The markup of a payload goes to pages and comes back to scripts, which know
nothing but its text. `readings?` is what they find in a text: for each window
the body and the id of the data element, and the two strings of the script that
hands the data over. From the markup of a payload they get the payload
(`readings?_markup`), whatever is in it.
-/

namespace Trellis

namespace Hydration

namespace Payload

open Page

variable {payload : Payload} {nonce : Option String} {window : String} {value : Json.Value}

/-! ## Reading a text -/

/-- A string in front of a script, quotes included, and the rest. -/
def literal? : List Char → Option (List Char × List Char)
  | '"' :: cs =>
    match Json.stringRest cs with
    | .ok (_, rest) => some ('"' :: cs.take (cs.length - rest.length), rest)
    | .error _ => none
  | _ => none

/-- A string behind a lead, and the rest. -/
def literalBehind? (lead cs : List Char) : Option (List Char × List Char) :=
  (Text.behind? lead cs).bind literal?

/-- The two strings of a script that hands data over: the window's and the data
element's. -/
def handed? (script : List Char) : Option (List Char × List Char) := do
  let (window, cs) ← literalBehind? "window[".toList script
  let (element, cs) ← literalBehind? "]=JSON.parse(document.getElementById(".toList cs
  if cs = ").textContent);".toList then some (window, element) else none

/-- What a reader finds of a window. -/
structure Reading where
  /-- The id of the data element, its references replaced. -/
  id : List Char
  /-- The text of the data element. -/
  data : List Char
  /-- The script that hands the data over. -/
  handover : List Char
  /-- The string in it that names the window. -/
  window : List Char
  /-- The string in it that names the data element. -/
  element : List Char

/-- What two elements say about a window. -/
def reading? (data handover : List Char) : Option Reading := do
  let (attributes, data) ← scriptParts? data
  let (_, handover) ← scriptParts? handover
  let id ← attribute? "id" attributes
  let (window, element) ← handed? handover
  return { id := Escape.dereferenced id, data, handover, window, element }

/-- What elements say that come in pairs. -/
def readingsOf? : List (List Char) → Option (List Reading)
  | [] => some []
  | [_] => none
  | data :: handover :: rest => do
    let first ← reading? data handover
    let more ← readingsOf? rest
    return first :: more

/-- **What a reader finds in a text**: the windows of its elements, two for
each. -/
def readings? (text : List Char) : Option (List Reading) :=
  readingsOf? ((scan text).pieces.map Piece.text)

/-- That a reading carries a window and its value. The data may be decoded by any
reader that allows their nesting. -/
structure Carries (entry : String × Json.Value) (r : Reading) : Prop where
  /-- The data element's text decodes to the value. -/
  data : ∀ depth, entry.2.nesting ≤ depth → Json.decodeWithin depth r.data = .ok entry.2
  /-- The script is made of its two strings. -/
  handover : r.handover = "window[".toList ++ r.window ++
    "]=JSON.parse(document.getElementById(".toList ++ r.element ++ ").textContent);".toList
  /-- The first one is the window's name. -/
  window : Json.decode r.window = .ok (.string entry.1)
  /-- The second one is the name of the data element. -/
  element : Json.decode r.element = .ok (.string ("skein-data-" ++ entry.1))
  /-- And that is the element's id. -/
  id : r.id = ("skein-data-" ++ entry.1).toList

/-! ## Reading what was written -/

theorem elementId_eq (window : String) : elementId window = ("skein-data-" ++ window).toList := by
  unfold elementId idLead
  rw [String.toList_append]

/-- The elements of different windows have different ids. -/
theorem elementId_injective : Function.Injective elementId := by
  intro w w' h
  exact String.toList_inj.1 (List.append_cancel_left h)

/-- A string of a script is read up to its closing quote. -/
theorem literal?_scriptString (cs rest : List Char) :
    literal? (scriptString cs ++ rest) = some (scriptString cs, rest) := by
  have hquoted : scriptString cs = '"' :: (Escape.script (Json.escapedText cs) ++ ['"']) :=
    Json.script_quoted cs
  have hread := Json.stringRest_script cs rest
  -- the string is what stands before the rest that the reader leaves
  have hlength : (Escape.script (Json.escapedText cs) ++ '"' :: rest).length - rest.length =
      (Escape.script (Json.escapedText cs) ++ ['"']).length := by
    simp only [List.length_append, List.length_cons, List.length_nil]
    omega
  have htake : (Escape.script (Json.escapedText cs) ++ '"' :: rest).take
      (Escape.script (Json.escapedText cs) ++ ['"']).length =
        Escape.script (Json.escapedText cs) ++ ['"'] := by
    have hsplit : Escape.script (Json.escapedText cs) ++ '"' :: rest =
        (Escape.script (Json.escapedText cs) ++ ['"']) ++ rest := by simp
    rw [hsplit]
    exact List.take_left
  rw [hquoted, List.cons_append, List.append_assoc, List.singleton_append, literal?]
  simp only [hread, hlength, htake]

theorem literalBehind?_scriptString (lead cs rest : List Char) :
    literalBehind? lead (lead ++ (scriptString cs ++ rest)) = some (scriptString cs, rest) := by
  have hbehind : Text.behind? lead (lead ++ (scriptString cs ++ rest)) =
      some (scriptString cs ++ rest) := Text.behind?_eq_some_iff.2 rfl
  rw [literalBehind?, hbehind, Option.bind_some, literal?_scriptString]

/-- **A handover gives its two strings away.** -/
theorem handed?_handover (window : String) :
    handed? (handover window) = some (scriptString window.toList, scriptString (elementId window)) := by
  have hsecond := literalBehind?_scriptString "]=JSON.parse(document.getElementById(".toList
    (elementId window) ").textContent);".toList
  have hfirst := literalBehind?_scriptString "window[".toList window.toList
    ("]=JSON.parse(document.getElementById(".toList ++
      (scriptString (elementId window) ++ ").textContent);".toList))
  unfold handed? handover
  rw [List.append_assoc, List.append_assoc, List.append_assoc, hfirst, Option.bind_eq_bind,
    Option.bind_some]
  dsimp only
  rw [hsecond, Option.bind_some]
  exact if_pos rfl

/-- The id of a data element is among its attributes. -/
theorem attribute?_dataAttributes (nonce : Option String) (window : String) :
    attribute? "id" (dataAttributes nonce window) = some (Escape.page (elementId window)) := by
  -- the id is the second attribute, and the tag is long enough for two
  obtain ⟨count, hcount⟩ : ∃ count, (dataAttributes nonce window).length = count + 1 + 1 := by
    refine ⟨(dataAttributes nonce window).length - 2, ?_⟩
    have hlength : 2 ≤ (dataAttributes nonce window).length := by
      unfold dataAttributes writtenAttribute
      simp only [List.length_append, List.length_cons]
      omega
    omega
  have htype : ∀ rest, attributesWithin (count + 1 + 1)
      (writtenAttribute "type" "application/json".toList ++ rest) =
        ⟨"type".toList, Escape.page "application/json".toList⟩ ::
          attributesWithin (count + 1) rest := fun rest =>
    attributesWithin_writtenAttribute (by simp) (by simp [isAttributeChar, Text.isPageBlank]) _ rest
      (count + 1)
  have hid : ∀ rest, attributesWithin (count + 1)
      (writtenAttribute "id" (elementId window) ++ rest) =
        ⟨"id".toList, Escape.page (elementId window)⟩ :: attributesWithin count rest := fun rest =>
    attributesWithin_writtenAttribute (by simp) (by simp [isAttributeChar, Text.isPageBlank]) _ rest
      count
  have hdiffers : Text.sameIgnoringCase "type".toList "id".toList = false := by decide
  have hsame : Text.sameIgnoringCase "id".toList "id".toList = true := by decide
  unfold attribute?
  rw [hcount, dataAttributes, List.append_assoc, htype, hid]
  simp only [List.find?_cons, hdiffers, hsame, Option.map_some]

/-- **Two elements say what they were written for.** -/
theorem reading?_elements (nonce : Option String) (window : String) (value : Json.Value) :
    reading? (dataElement nonce window value) (handoverElement nonce window) =
      some ⟨elementId window, Escape.script value.written, handover window,
        scriptString window.toList, scriptString (elementId window)⟩ := by
  have hdata : scriptParts? (dataElement nonce window value) =
      some (dataAttributes nonce window, Escape.script value.written) := by
    rw [dataElement_eq]
    exact scriptParts?_scriptElement (passes_dataAttributes nonce window)
      (Escape.lt_not_mem_script value.written)
  have hhandover : scriptParts? (handoverElement nonce window) =
      some (nonceAttribute nonce, handover window) := by
    rw [handoverElement_eq]
    exact scriptParts?_scriptElement (passes_nonceAttribute nonce) (not_mem_handover window)
  simp only [reading?, hdata, hhandover, attribute?_dataAttributes, handed?_handover,
    Escape.dereferenced_page, Option.bind_eq_bind, Option.bind_some, pure]

/-- They carry the window and its value. -/
theorem carries_of_whole (hwhole : value.Whole) (window : String) :
    Carries (window, value) ⟨elementId window, Escape.script value.written, handover window,
      scriptString window.toList, scriptString (elementId window)⟩ where
  data depth hdepth := Json.decodeWithin_script hwhole hdepth
  handover := rfl
  window := by
    have hdecode := Json.decode_script_quoted window.toList
    rwa [String.ofList_toList] at hdecode
  element := by
    have hdecode := Json.decode_script_quoted (elementId window)
    rw [elementId_eq, String.ofList_toList] at hdecode
    rwa [← elementId_eq] at hdecode
  id := elementId_eq window

/-- **A reader gets a payload back** from its markup, window by window. -/
theorem readings?_markup (nonce : Option String) (hwhole : ∀ entry ∈ payload, entry.2.Whole) :
    ∃ readings, readings? (markup nonce payload) = some readings ∧
      List.Forall₂ Carries payload readings := by
  unfold readings?
  rw [pieces_markup, map_text_scriptPieces]
  induction payload with
  | nil => exact ⟨[], rfl, .nil⟩
  | cons entry payload ih =>
    obtain ⟨window, value⟩ := entry
    obtain ⟨readings, hread, hcarries⟩ := ih fun entry hentry =>
      hwhole entry (List.mem_cons_of_mem _ hentry)
    have hfirst := carries_of_whole (hwhole (window, value) List.mem_cons_self) window
    refine ⟨_ :: readings, ?_, .cons hfirst hcarries⟩
    have helements : elements nonce ((window, value) :: payload) =
        dataElement nonce window value :: handoverElement nonce window :: elements nonce payload := rfl
    rw [helements, readingsOf?, reading?_elements, hread]
    rfl

/-- The ids that a reader finds are those of the windows. -/
theorem map_id_of_carries {readings : List Reading} (h : List.Forall₂ Carries payload readings) :
    readings.map Reading.id = (names payload).map elementId := by
  induction h with
  | nil => rfl
  | cons hfirst _ ih =>
    rw [List.map_cons, ih, hfirst.id, ← elementId_eq]
    rfl

/-- **What was put in is what a reader gets.** Whatever the run of insertions and
the nonce, the payload has the windows in the order in which they came first,
each once and with its last value; and a reader of the markup finds these
windows in this order, each with its data, its name and an id of its own. -/
theorem readings?_markup_collected (nonce : Option String) (inserts : List (String × Json.Value))
    (hwhole : ∀ entry ∈ inserts, entry.2.Whole) :
    (names (collected inserts)).Nodup ∧
      names (collected inserts) = (inserts.map Prod.fst).eraseDups ∧
      (∀ entry, entry ∈ collected inserts ↔
        ∃ before after, inserts = before ++ entry :: after ∧ entry.1 ∉ after.map Prod.fst) ∧
      ∃ readings, readings? (markup nonce (collected inserts)) = some readings ∧
        List.Forall₂ Carries (collected inserts) readings ∧
        (readings.map Reading.id).Nodup := by
  have hnodup := nodup_names_collected inserts
  have hvalues : ∀ entry ∈ collected inserts, entry.2.Whole := by
    intro entry hentry
    obtain ⟨before, after, rfl, -⟩ := mem_collected.1 hentry
    exact hwhole entry (by simp)
  obtain ⟨readings, hread, hcarries⟩ := readings?_markup nonce hvalues
  refine ⟨hnodup, ?_, fun entry => mem_collected, readings, hread, hcarries, ?_⟩
  · rw [names_collected, Text.distinct_eq_eraseDups]
  · rw [map_id_of_carries hcarries]
    exact List.Nodup.map elementId_injective hnodup

/-- A window that is put in twice, and data that would end their element. -/
theorem readings?_markup_collected_twice :
    ∃ readings, readings? (markup (some "n") (collected
        [("a", .number (.int (-1))), ("b\"<", .array [.null, .bool true]),
          ("a", .object [("k", .string "</script>")])])) = some readings ∧
      List.Forall₂ Carries
        [("a", .object [("k", .string "</script>")]), ("b\"<", .array [.null, .bool true])]
        readings ∧
      (readings.map Reading.id).Nodup := by
  have hwhole : ∀ entry ∈ [("a", Json.Value.number (.int (-1))),
      ("b\"<", .array [.null, .bool true]), ("a", .object [("k", .string "</script>")])],
      entry.2.Whole := by
    simp only [List.forall_mem_cons]
    refine ⟨.int (-1) (by decide) (by decide), .array _ ?_, .object _ (by simp) ?_, by simp⟩
    · simp only [List.forall_mem_cons]
      exact ⟨.null, .bool true, by simp⟩
    · simp only [List.forall_mem_cons]
      exact ⟨.string _, by simp⟩
  exact (readings?_markup_collected (some "n") _ hwhole).2.2.2

end Payload

end Hydration

end Trellis
