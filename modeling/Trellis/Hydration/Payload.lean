import Trellis.Escape
/-!
# Hydration — the data that scripts find

The data of a page's windows, as markup: for each window a script element that
holds the data and one that hands it over under the window's name. Data and
names are escaped so that nothing in them can end an element.
-/

namespace Trellis

namespace Hydration

/-- Data by window, in the order in which windows came first. -/
abbrev Payload := List (String × Json.Value)

namespace Payload

/-- Puts data under a window, in the place of the data that is there. -/
def insert : Payload → String → Json.Value → Payload
  | [], window, value => [(window, value)]
  | (w, v) :: rest, window, value =>
    if w = window then (w, value) :: rest else (w, v) :: insert rest window value

/-- What the ids of data elements start with. -/
def idLead : List Char :=
  "skein-data-".toList

/-- The id of a window's data element. -/
def elementId (window : String) : List Char :=
  idLead ++ window.toList

/-- A text as a string of a script. -/
def scriptString (cs : List Char) : List Char :=
  Escape.script (Json.quoted cs)

/-- The attribute that carries a nonce. -/
def nonceAttribute : Option String → List Char
  | none => []
  | some nonce => " nonce=\"".toList ++ Escape.page nonce.toList ++ "\"".toList

/-- The element that holds a window's data. -/
def dataElement (nonce : Option String) (window : String) (value : Json.Value) : List Char :=
  "<script type=\"application/json\" id=\"".toList ++ Escape.page (elementId window) ++
    "\"".toList ++ nonceAttribute nonce ++ ">".toList ++ Escape.script value.written ++
    "</script>".toList

/-- The element that hands a window's data over. -/
def handoverElement (nonce : Option String) (window : String) : List Char :=
  "<script".toList ++ nonceAttribute nonce ++ ">window[".toList ++ scriptString window.toList ++
    "]=JSON.parse(document.getElementById(".toList ++ scriptString (elementId window) ++
    ").textContent);</script>".toList

/-- **The markup of a payload.** -/
def markup (nonce : Option String) (payload : Payload) : List Char :=
  payload.flatMap fun (window, value) =>
    dataElement nonce window value ++ handoverElement nonce window

end Payload

end Hydration

end Trellis
