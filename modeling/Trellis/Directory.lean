import Trellis.FilePath
import Trellis.Keyed
import Trellis.Library
/-!
# Directory — files held in memory

A directory tree below one base directory, as files under their paths. Reading
a path walks its components: a missing one is not found, a file in the middle
is no directory, and a directory at the end is no text. With a source directory
in it, such a tree is a library.
-/

namespace Trellis

/-- What a path leads to. -/
inductive FileEntry where
  | text (content : String)
  | binary
  | folder
  deriving DecidableEq, Repr

/-- Files below a base directory, by the components of their paths. -/
structure Directory where
  /-- The path of the base directory, one component. -/
  base : String
  /-- The files and the folders that were made on their own. -/
  entries : List (List String × FileEntry) := []
  deriving Repr

namespace Directory

/-- What the components of a path lead to. A folder is there as soon as
something lies in it. -/
def entryAt? (d : Directory) (path : List String) : Option FileEntry :=
  match d.entries.find? fun e => e.1 == path with
  | some e => some e.2
  | none =>
    if path.isEmpty || d.entries.any fun e => path.isPrefixOf e.1 then some .folder else none

/-- How many bytes a component of a path may have. -/
def longestName : Nat := 255

/-- How many bytes a path may have. -/
def longestPath : Nat := 4095

/-- Whether a component is too long for a file to be called so. -/
def isTooLong (name : String) : Bool :=
  longestName < Text.width name.toList

/-- What components lead to from a folder outside of the base. Nothing is known
to be there but the folders above it. -/
def walkOutside : List String → Except FileFault FileEntry
  | [] => .ok .folder
  | name :: rest =>
    if name = ".." then walkOutside rest
    else if isTooLong name then .error .nameTooLong
    else .error .notFound

/-- Walks components from a folder on, to the entry at the end. -/
def walk (d : Directory) (here : List String) : List String → Except FileFault FileEntry
  | [] =>
    match d.entryAt? here with
    | some entry => .ok entry
    | none => .error .notFound
  | name :: rest =>
    match d.entryAt? here with
    | none => .error .notFound
    | some .folder =>
      if name = ".." then if here.isEmpty then walkOutside rest else walk d here.dropLast rest
      else if isTooLong name then .error .nameTooLong
      else walk d (here ++ [name]) rest
    | some _ => .error .notDirectory

/-- What the components of a path lead to, from the base if that is the first of
them. -/
def walkFrom (d : Directory) (names : List String) : Except FileFault FileEntry :=
  match names with
  | name :: rest => if name = d.base then d.walk [] rest else walkOutside names
  | [] => .error .notFound

/-- The entry that a path leads to. -/
def entryOf (d : Directory) (path : String) : Except FileFault FileEntry :=
  let parts := FilePath.parts path
  let asksFolder := (parts.getLast?).any FilePath.isHollow
  let names := (parts.filter fun p => !FilePath.isHollow p).map String.ofList
  if path.toList.contains '\x00' then .error .nullInName
  else if longestPath < Text.width path.toList then .error .nameTooLong
  else
    match d.walkFrom names with
    | .error fault => .error fault
    | .ok .folder => .ok .folder
    | .ok entry => if asksFolder then .error .notDirectory else .ok entry

/-- **The text of a file.** -/
def read (d : Directory) (path : String) : Except FileFault String :=
  match d.entryOf path with
  | .error fault => .error fault
  | .ok .folder => .error .isDirectory
  | .ok .binary => .error .notText
  | .ok (.text content) => .ok content

/-- Whether there is something under a path. -/
def exists? (d : Directory) (path : String) : Bool :=
  match d.entryOf path with
  | .ok _ => true
  | .error _ => false

/-- The components of a path below the base after the steps back in it. -/
def settled (names : List String) : List String :=
  names.foldl (fun here name => if name = ".." then here.dropLast else here ++ [name]) []

/-- The directory with an entry written under a path below the base. -/
def write (d : Directory) (name : String) (entry : FileEntry) : Directory :=
  let parts := (FilePath.parts name).filter fun p => !FilePath.isHollow p
  let path := settled (parts.map String.ofList)
  { d with entries := (d.entries.filter fun e => e.1 != path) ++ [(path, entry)] }

/-- What a source directory answers under a name. -/
def fetch (d : Directory) (sources : SourceDirectory) (name : String) :
    Except Failure (Option String) :=
  match sources.pathOf name with
  | .error e => .error e
  | .ok path =>
    match d.read path with
    | .ok text => .ok (some text)
    | .error .notFound => .ok none
    | .error fault => .error (.file fault)

/-- Number of characters in all files. -/
def volume (d : Directory) : Nat :=
  d.entries.foldl
    (fun n e =>
      match e.2 with
      | .text content => n + content.length
      | _ => n)
    0

/-- **A source directory as a library.** A name behind the first on a path of
references stands in some file, so there are no more of them than characters. -/
def library (d : Directory) (sources : SourceDirectory) : Library :=
  { fetch := d.fetch sources, breadth := d.volume + 1 }

end Directory

end Trellis
