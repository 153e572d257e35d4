import Trellis.Glob.Expression
import Trellis.Toml.Reader
import Trellis.View
/-!
# Settings — what a site can be told

The settings of a site with their defaults, and reading them from a file. A
setting that is absent takes its default, one that is unknown is passed over,
and one of the wrong kind makes the file unreadable. A group of settings may
also be written as a list of its values in order.
-/

namespace Trellis

/-- Where sources are and how many graphs are remembered. -/
structure TemplateSettings where
  /-- The directory of the sources. -/
  rootDir : String := "templates"
  /-- The extension of names that have none. -/
  extension : String := "sfc"
  /-- How many graphs are remembered; with zero, none. -/
  cacheSize : Nat := 100
  deriving DecidableEq, Repr

/-- How data comes into the page. -/
structure HydrationSettings where
  /-- Where markup should go. -/
  strategy : Page.Strategy := .early
  /-- The id of the mount element. -/
  mountId : String := "app"
  /-- Whether markup without its preferred place goes late. -/
  fallback : Bool := true
  /-- Patterns of documents whose markup always goes late. -/
  exclude : List String := []
  /-- Whether pages get a nonce. -/
  nonce : Bool := true
  deriving DecidableEq, Repr

/-- The settings of a site. -/
structure Settings where
  /-- What is logged. -/
  logLevel : String := "warn"
  /-- Where sources are. -/
  templates : TemplateSettings := {}
  /-- How deep partials may lie. -/
  maxDepth : Nat := 64
  /-- How data comes into the page. -/
  hydration : HydrationSettings := {}
  deriving DecidableEq, Repr

namespace Settings

/-- How pages are made under the settings, or which pattern is none. -/
def maker (s : Settings) : Except Failure View.Maker := do
  let excluded ← (Glob.readAll s.hydration.exclude).mapError .setting
  return {
    maxDepth := s.maxDepth
    injector := {
      strategy := s.hydration.strategy
      mountId := s.hydration.mountId
      fallback := s.hydration.fallback
      excluded } }

/-- A reader of one kind of value. -/
abbrev Decoder (α : Type) := Toml.Value → Option α

/-- A text. -/
def text? : Decoder String
  | .string s => some s
  | _ => none

/-- A natural number. -/
def natural? : Decoder Nat
  | .integer n => if 0 ≤ n then some n.toNat else none
  | _ => none

/-- A truth value. -/
def truth? : Decoder Bool
  | .boolean b => some b
  | _ => none

/-- A list of texts. -/
def texts? : Decoder (List String)
  | .array items => items.mapM text?
  | _ => none

/-- Whether a value is an empty list or table. -/
def isEmpty : Toml.Value → Bool
  | .array items => items.isEmpty
  | .table _ entries => entries.isEmpty
  | _ => false

/-- A strategy: its word, or a table with the word as its only key. -/
def strategy? : Decoder Page.Strategy
  | .string s => Page.Strategy.ofWord? s
  | .table _ [(word, v)] => if isEmpty v then Page.Strategy.ofWord? word else none
  | _ => none

/-- The settings of a group: by name, or by position. -/
inductive Group where
  | named (entries : Toml.Entries)
  | listed (items : List Toml.Value)

/-- The group that a value is. A date or a time counts as a group that sets
nothing. -/
def group? : Decoder Group
  | .table _ entries => some (.named entries)
  | .array items => some (.listed items)
  | .tables elements => some (.listed (elements.map (.table .header)))
  | .moment => some (.named [])
  | _ => none

/-- A setting of a group, or its default where it is absent. -/
def Group.setting (g : Group) (position : Nat) (name : String) (decode : Decoder α) (default : α) :
    Option α :=
  let value? :=
    match g with
    | .named entries => entries.get? name
    | .listed items => items[position]?
  match value? with
  | none => some default
  | some value => decode value

/-- The settings of sources. -/
def templates? : Decoder TemplateSettings := fun value => do
  let g ← group? value
  let default : TemplateSettings := {}
  let rootDir ← g.setting 0 "root_dir" text? default.rootDir
  let extension ← g.setting 1 "extension" text? default.extension
  let cacheSize ← g.setting 2 "cache_size" natural? default.cacheSize
  return { rootDir, extension, cacheSize }

/-- The limit of rendering. -/
def render? : Decoder Nat := fun value => do
  let g ← group? value
  g.setting 0 "max_partial_depth" natural? ({} : Settings).maxDepth

/-- The settings of hydration. -/
def hydration? : Decoder HydrationSettings := fun value => do
  let g ← group? value
  let default : HydrationSettings := {}
  let strategy ← g.setting 0 "strategy" strategy? default.strategy
  let mountId ← g.setting 1 "mount_id" text? default.mountId
  let fallback ← g.setting 2 "fallback_when_unsafe" truth? default.fallback
  let exclude ← g.setting 3 "exclude" texts? default.exclude
  let nonce ← g.setting 4 "nonce" truth? default.nonce
  return { strategy, mountId, fallback, exclude, nonce }

/-- The settings that tables say. -/
def ofTables? (entries : Toml.Entries) : Option Settings := do
  let g : Group := .named entries
  let default : Settings := {}
  let templates ← g.setting 0 "templates" templates? default.templates
  let maxDepth ← g.setting 1 "render" render? default.maxDepth
  let hydration ← g.setting 2 "hydration" hydration? default.hydration
  let logLevel ← g.setting 3 "log_level" text? default.logLevel
  return { templates, maxDepth, hydration, logLevel }

/-- **The settings of a file's text.** -/
def read (text : String) : Except Failure Settings :=
  match (Toml.read? text).bind ofTables? with
  | some settings => .ok settings
  | none => .error (.setting .unreadable)

end Settings

end Trellis
