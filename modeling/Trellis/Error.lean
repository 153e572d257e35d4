import Trellis.Json.Reader
import Trellis.Location
import Trellis.Snippet
/-!
# Error — causes and their wording

What can go wrong, as causes, and in one function per type the sentence that
says so. A fault of a source carries its location and, once the whole source
is known, the lines around it.
-/

namespace Trellis

/-- A fault of a section's opening tag. -/
inductive TagFault where
  | openComment
  | openTag
  | nameNotAlphabetic
  | unexpectedText (text tag : String)
  | repeatedAttribute (name tag : String)
  | described (text : String)
  deriving DecidableEq, Repr

/-- The wording of a tag's fault. -/
def TagFault.message : TagFault → String
  | .openComment => "unterminated comment"
  | .openTag => "unterminated opening tag"
  | .nameNotAlphabetic => "section tag names must be alphabetic"
  | .unexpectedText text tag => "unexpected '" ++ text ++ "' in <" ++ tag ++ "> attributes"
  | .repeatedAttribute name tag => "duplicate attribute '" ++ name ++ "' on <" ++ tag ++ ">"
  | .described text => text

/-- What is wrong with a source. -/
inductive SourceFault where
  | emptyDocument
  | unclosedExpression (expected : String)
  | emptyExpression
  | invalidPartialName (name : String)
  | unknownBlock (keyword : String)
  | missingBlockArgument (block : String)
  | unclosedBlock (block : String) (openedAt : Location)
  | unexpectedCloser (block : String)
  | unexpectedElse
  | malformedTag (fault : TagFault)
  | unclosedSection (tag : String)
  | strayContent
  | missingSections (tags : List String)
  | duplicateSections (tags : List String)
  | unknownSections (tags : List String)
  deriving DecidableEq, Repr

/-- The wording of a source's fault. -/
def SourceFault.message : SourceFault → String
  | .emptyDocument => "document is empty"
  | .unclosedExpression expected => "unclosed expression, expected '" ++ expected ++ "'"
  | .emptyExpression => "empty expression"
  | .invalidPartialName name => "invalid partial name '" ++ name ++ "'"
  | .unknownBlock keyword => "unknown block '#" ++ keyword ++ "'"
  | .missingBlockArgument block => "block '#" ++ block ++ "' requires an argument"
  | .unclosedBlock block openedAt =>
    "unclosed '\x7b\x7b#" ++ block ++ "\x7d\x7d' block opened at line " ++ toString openedAt.line ++
      ", column " ++ toString openedAt.column
  | .unexpectedCloser block => "unexpected closing tag '\x7b\x7b/" ++ block ++ "\x7d\x7d'"
  | .unexpectedElse => "unexpected '\x7b\x7belse\x7d\x7d'"
  | .malformedTag fault => "malformed section tag: " ++ fault.message
  | .unclosedSection tag => "unclosed section <" ++ tag ++ ">, expected '</" ++ tag ++ ">'"
  | .strayContent => "unexpected content outside of a section"
  | .missingSections tags => "missing required section(s): " ++ Text.listed tags
  | .duplicateSections tags => "duplicate section(s): " ++ Text.listed tags
  | .unknownSections tags => "unknown section(s): " ++ Text.listed tags

/-- A fault of a source with its place. -/
structure SourceError where
  /-- What is wrong. -/
  fault : SourceFault
  /-- Where it is wrong. -/
  location : Location
  /-- The lines around the place. -/
  snippet : Option Snippet := none
  deriving DecidableEq, Repr

namespace SourceError

/-- The error with the lines of its source around it. -/
def inSource (e : SourceError) (source : String) : SourceError :=
  { e with snippet := some (Snippet.ofSource source e.location.line e.location.column) }

/-- The wording of a source error, its snippet included. -/
def message (e : SourceError) : String :=
  "Parse error: " ++ e.fault.message ++ " at line " ++ toString e.location.line ++ ", column " ++
    toString e.location.column ++ " (offset " ++ toString e.location.offset ++ ")" ++
    match e.snippet with
    | some snippet => "\n" ++ snippet.shown
    | none => ""

end SourceError

/-- The place of a data section: its document, line and column. -/
structure Origin where
  /-- Name of the document. -/
  document : String
  /-- Line, from one. -/
  line : Nat
  /-- Column, from one. -/
  column : Nat
  deriving DecidableEq, Repr

/-- The place as text. -/
def Origin.text (o : Origin) : String :=
  o.document ++ ":" ++ toString o.line ++ ":" ++ toString o.column

/-- A rule of the site that some input does not keep. -/
inductive Violation where
  | layerNotMapping (layer kind : String)
  | unknownMerge (strategy document : String)
  | unnamedDataNotMapping (document : String)
  | blankWindow
  | noSourceLocation (window : String)
  | documentName (name : String)
  | described (text : String)
  deriving DecidableEq, Repr

/-- The wording of a violation. -/
def Violation.message : Violation → String
  | .layerNotMapping layer kind =>
    "the " ++ layer ++ " layer must be a JSON object, got " ++ kind
  | .unknownMerge strategy document =>
    "unknown merge strategy '" ++ strategy ++ "' in '" ++ document ++ "', expected deep or shallow"
  | .unnamedDataNotMapping document =>
    "data section of '" ++ document ++ "' has no window attribute and is not a JSON object"
  | .blankWindow => "window attribute must not be empty"
  | .noSourceLocation window => "claim for '" ++ window ++ "' has no source location"
  | .documentName name => "invalid document name '" ++ name ++ "'"
  | .described text => text

/-- What is wrong with a pattern of document names. -/
inductive PatternFault where
  | unclosedClass
  | invalidRange (first last : Char)
  | unopenedAlternates
  | unclosedAlternates
  | danglingEscape
  deriving DecidableEq, Repr

/-- The wording of a pattern's fault. -/
def PatternFault.message : PatternFault → String
  | .unclosedClass => "unclosed character class; missing ']'"
  | .invalidRange first last =>
    "invalid range; '" ++ first.toString ++ "' > '" ++ last.toString ++ "'"
  | .unopenedAlternates =>
    "unopened alternate group; missing '\x7b' (maybe escape '\x7d' with '[\x7d]'?)"
  | .unclosedAlternates =>
    "unclosed alternate group; missing '\x7d' (maybe escape '\x7b' with '[\x7b]'?)"
  | .danglingEscape => "dangling '\\'"

/-- A setting that cannot be used. -/
inductive SettingFault where
  | unreadable
  | unknownStrategy (name : String)
  | invalidPattern (pattern : String) (fault : PatternFault)
  | deepPattern (position : Nat)
  | deepExpression (expression : String)
  deriving DecidableEq, Repr

/-- The wording of a setting's fault. -/
def SettingFault.message : SettingFault → String
  | .unreadable => "unreadable settings"
  | .unknownStrategy name =>
    "unknown injection strategy '" ++ name ++ "', expected early, late or mount"
  | .invalidPattern pattern fault =>
    "invalid exclude pattern '" ++ pattern ++ "': error parsing glob '" ++ pattern ++ "': " ++
      fault.message
  | .deepPattern position =>
    "invalid exclude patterns: error parsing pattern " ++ toString position
  | .deepExpression expression =>
    "invalid exclude patterns: error parsing glob '" ++ expression ++ "': error parsing pattern 0"

/-- A failure to read a file. -/
inductive FileFault where
  | nullInName
  | nameTooLong
  | notFound
  | notDirectory
  | isDirectory
  | notText
  deriving DecidableEq, Repr

/-- The wording of a failure to read. -/
def FileFault.message : FileFault → String
  | .nullInName => "file name contained an unexpected NUL byte"
  | .nameTooLong => "File name too long (os error 36)"
  | .notFound => "No such file or directory (os error 2)"
  | .notDirectory => "Not a directory (os error 20)"
  | .isDirectory => "Is a directory (os error 21)"
  | .notText => "stream did not contain valid UTF-8"

/-- Why an operation of a site has no result. -/
inductive Failure where
  | source (e : SourceError)
  | rendering (cause : Failure)
  | nestedTooDeep (partialName : String) (location : Location) (limit : Nat)
  | unresolvedRoot (name : String)
  | unresolvedLayout (name : String)
  | partialNotFound (name : String) (location : Location)
  | templateNotFound (name : String) (reason : Option String)
  | circular (chain : List String)
  | collision (window : String) (first second : Origin)
  | invalid (violation : Violation)
  | data (document : String) (e : Json.ReadError)
  | file (fault : FileFault)
  | setting (fault : SettingFault)
  deriving DecidableEq, Repr

namespace Failure

/-- The wording of a failure. -/
def message : Failure → String
  | source e => e.message
  | rendering cause => "Render error: " ++ cause.message
  | nestedTooDeep name location limit =>
    "Render error: partial '" ++ name ++ "' at line " ++ toString location.line ++ ", column " ++
      toString location.column ++ " exceeds the maximum nesting depth of " ++ toString limit
  | unresolvedRoot name => "Render error: root '" ++ name ++ "' is not resolved"
  | unresolvedLayout name => "Render error: layout '" ++ name ++ "' is not resolved"
  | partialNotFound name location =>
    "Partial not found: '" ++ name ++ "' at line " ++ toString location.line ++ ", column " ++
      toString location.column
  | templateNotFound name reason =>
    "Template not found: '" ++ name ++ "'" ++
      match reason with
      | some reason => " (" ++ reason ++ ")"
      | none => ""
  | circular chain => "Circular dependency: " ++ " -> ".intercalate chain
  | collision window first second =>
    "Hydration collision on window attribute '" ++ window ++ "': claimed at " ++ first.text ++
      " and again at " ++ second.text ++
      ". Rename one of the window attributes, or add merge=\"deep\" (or merge=\"shallow\")" ++
      " to the later section to merge the data explicitly"
  | invalid violation => "Validation error: " ++ violation.message
  | data document e => "Invalid data section in '" ++ document ++ "': " ++ e.message
  | file fault => "IO error: " ++ fault.message
  | setting fault => "Config error: " ++ fault.message

/-- **A failure while rendering.** Failures of rendering itself and of missing
partials stand as they are; any other becomes the cause of one. -/
def whileRendering : Failure → Failure
  | rendering cause => rendering cause
  | nestedTooDeep name location limit => nestedTooDeep name location limit
  | unresolvedRoot name => unresolvedRoot name
  | unresolvedLayout name => unresolvedLayout name
  | partialNotFound name location => partialNotFound name location
  | other => rendering other

end Failure

end Trellis
