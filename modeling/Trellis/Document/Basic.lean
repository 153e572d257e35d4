import Trellis.Document.Passage
import Trellis.Json.Merge
import Trellis.Markup.Parser
/-!
# Document — sections and their roles

A document has one section of data or one schema in its place, one template,
and at most one section of logic. `ofPassages` settles which passages make a
document: unknown tags are refused first, then roles filled twice, then roles
left empty, and last the faults of the template itself.
-/

namespace Trellis

namespace Document

/-- The kinds of sections. -/
inductive SectionKind where
  | data
  | schema
  | template
  | logic
  deriving DecidableEq, Repr

namespace SectionKind

/-- The tag of a kind. -/
def tag : SectionKind → String
  | data => "data"
  | schema => "schema"
  | template => "template"
  | logic => "logic"

/-- The kind of a tag. -/
def ofTag? (tag : String) : Option SectionKind :=
  [data, schema, template, logic].find? fun kind => kind.tag == tag

/-- The role that a kind fills; a schema stands in the place of data. -/
def role : SectionKind → SectionKind
  | schema => data
  | kind => kind

end SectionKind

/-- A section of a document. -/
structure Section where
  /-- What the section is. -/
  kind : SectionKind
  /-- The attributes of its opening tag. -/
  attributes : Keyed String
  /-- The text between its tags. -/
  raw : String
  /-- The tree of a template, and the text of any other section as one node. -/
  content : List Markup.Node
  /-- The range of the section, tags included. -/
  location : Location
  deriving Repr

/-- The range of a section's text, read off its content. -/
def Section.contentPlace (s : Section) : Location :=
  (s.content.head?.map Markup.Node.location).getD .start

end Document

/-- A document: data or a schema, a template, and perhaps logic. -/
structure Document where
  /-- The data, or the schema that stands for them. -/
  data : Document.Section
  /-- What the document shows. -/
  template : Document.Section
  /-- Text that nothing here reads. -/
  logic : Option Document.Section
  deriving Repr

namespace Document

/-- The value of an attribute, on the data or else on the template. -/
def attribute? (d : Document) (name : String) : Option String :=
  (d.data.attributes.get? name).or (d.template.attributes.get? name)

/-- The name under which the page's scripts see the data. -/
def window? (d : Document) : Option String :=
  (attribute? d "window").filter (· ≠ "")

/-- The document that this one is shown inside of. -/
def layout? (d : Document) : Option String :=
  (attribute? d "layout").filter (· ≠ "")

/-- The word for the way of merging on the data section. -/
def mergeWord? (d : Document) : Option String :=
  d.data.attributes.get? "merge"

/-- The way of merging on the data section, if its word is known. -/
def merge? (d : Document) : Option Json.Merge :=
  d.mergeWord?.bind Json.Merge.ofName?

/-- Whether a schema stands for the data. -/
def isSchema (d : Document) : Bool :=
  d.data.kind == .schema

/-- The tags of passages that are of no known kind. -/
def unknownPassages (passages : List Passage) : List Passage :=
  passages.filter fun p => (SectionKind.ofTag? p.tag).isNone

/-- The passages of known kinds. -/
def knownPassages (passages : List Passage) : List (SectionKind × Passage) :=
  passages.filterMap fun p => (SectionKind.ofTag? p.tag).map fun kind => (kind, p)

/-- The passages whose role an earlier one fills already, each with the name
under which it is reported: its own tag if that was there before, or both tags
of the role. The kinds before come first. -/
def repeatedFrom (seen : List SectionKind) :
    List (SectionKind × Passage) → List (String × Passage)
  | [] => []
  | (kind, p) :: rest =>
    let more := repeatedFrom (seen ++ [kind]) rest
    if seen.any fun earlier => earlier.role == kind.role then
      ((if seen.contains kind then kind.tag else "data/schema"), p) :: more
    else more

/-- The tags of the roles that no passage fills. -/
def missingTags (kinds : List SectionKind) : List String :=
  (if kinds.any fun kind => kind.role == .data then [] else ["data"]) ++
    (if kinds.contains .template then [] else ["template"])

/-- Refuses passages that make no document of the given text. -/
def checkPassages (passages : List Passage) (text : String) : Except SourceError Unit :=
  let known := knownPassages passages
  match unknownPassages passages with
  | first :: rest =>
    .error {
      fault := .unknownSections (Text.distinct ((first :: rest).map Passage.tag))
      location := first.location }
  | [] =>
    match repeatedFrom [] known with
    | first :: rest =>
      .error {
        fault := .duplicateSections (Text.distinct ((first :: rest).map Prod.fst))
        location := first.2.location }
    | [] =>
      match missingTags (known.map Prod.fst) with
      | [] => .ok ()
      | tags =>
        .error { fault := .missingSections tags, location := Location.start.after text.toList }

/-- The passage that fills a role. -/
def filling? (role : SectionKind) (passages : List Passage) : Option (SectionKind × Passage) :=
  (knownPassages passages).find? fun p => p.1.role == role

/-- The section of a passage with its content. -/
def sectionOf (kind : SectionKind) (p : Passage) (content : List Markup.Node) : Section :=
  { kind, attributes := p.attributes, raw := p.content, content, location := p.location }

/-- The section of a passage whose text is no markup. -/
def textSection (filled : SectionKind × Passage) : Section :=
  let (kind, p) := filled
  sectionOf kind p [.text p.content p.contentLocation]

/-- The document of passages that fill the roles of one. -/
def assemble (passages : List Passage) : Except SourceError Document := do
  let unfilled : SourceError :=
    { fault := .missingSections ["data", "template"], location := .start }
  match filling? .data passages, filling? .template passages with
  | some data, some (kind, p) =>
    let content ← Markup.parseAt p.content p.contentLocation
    return {
      data := textSection data
      template := sectionOf kind p content
      logic := (filling? .logic passages).map textSection }
  | _, _ => throw unfilled

/-- **The document that passages of a text make.** -/
def ofPassages (passages : List Passage) (text : String) : Except SourceError Document := do
  checkPassages passages text
  assemble passages

/-- **The document of a text**, by a given way of cutting it into passages. A
blank text is no document; any other fault comes with the lines around it. -/
def parseWith (cut : String → Except SourceError (List Passage)) (text : String) :
    Except SourceError Document :=
  if Text.isBlankText text.toList then .error { fault := .emptyDocument, location := .start }
  else
    let document : Except SourceError Document := do ofPassages (← cut text) text
    document.mapError fun e => e.inSource text

/-- **The document of a text.** -/
def parse (text : String) : Except SourceError Document :=
  parseWith passages text

end Document

/-- **The tree that a source shows**: a document's template, or the markup
itself. -/
def shownTree (source : String) : Except SourceError (List Markup.Node) :=
  if Document.isDocumentSource source then
    (Document.parse source).map fun d => d.template.content
  else Markup.parse source

end Trellis
