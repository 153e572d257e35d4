import Trellis.Error
import Trellis.Text.Blank
import Trellis.Text.Cut
/-!
# FilePath — from document names to paths

A document's name is a path below the root directory. Empty components and
single points change nothing, and a name with a double point is refused, so
that no name leads out of the root. A name whose last component has no
extension gets one.
-/

namespace Trellis

namespace FilePath

/-- The parts of a path between slashes. -/
def parts (path : String) : List (List Char) :=
  Text.pieces '/' path.toList

/-- Whether a part stands for the directory itself. -/
def isHollow (part : List Char) : Bool :=
  part.isEmpty || part == ['.']

/-- Whether a part leads to the directory above. -/
def isParent (part : List Char) : Bool :=
  part == ['.', '.']

/-- The extension of a file's name: what is behind its last point, unless that
point is its first character. -/
def extension? (name : List Char) : Option (List Char) :=
  let reversed := name.reverse
  let behind := reversed.takeWhile (· != '.')
  match reversed.drop behind.length with
  | _ :: before => if before.isEmpty || isParent name then none else some behind.reverse
  | [] => none

/-- A path below a root. -/
def join (root relative : String) : String :=
  if root.isEmpty || root.toList.getLast? == some '/' then root ++ relative
  else root ++ "/" ++ relative

/-- A path with an extension, if it ends in a file's name that has none. What
stands behind the name is dropped then. -/
def withExtension (path : String) (extension : String) : String :=
  match (parts path).reverse.dropWhile isHollow with
  | [] => path
  | name :: before =>
    if isParent name || (extension? name).isSome then path
    else
      let kept := (name :: before).reverse.map String.ofList
      "/".intercalate kept ++ "." ++ extension

end FilePath

/-- A directory of sources, and the extension of names that have none. -/
structure SourceDirectory where
  /-- The root. -/
  root : String
  /-- The extension, without a point in front. -/
  extension : String := "sfc"
  deriving Repr

namespace SourceDirectory

/-- A directory with an extension, points in front of it dropped. -/
def make (root extension : String) : SourceDirectory :=
  { root, extension := String.ofList (extension.toList.dropWhile (· == '.')) }

/-- **The path of a document**, or the refusal of its name. -/
def pathOf (d : SourceDirectory) (name : String) : Except Failure String :=
  let relative := String.ofList (name.toList.dropWhile (· == '/'))
  if Text.isBlankText name.toList || (FilePath.parts relative).any FilePath.isParent then
    .error (.invalid (.documentName name))
  else
    let path := FilePath.join d.root relative
    .ok (if d.extension.isEmpty then path else FilePath.withExtension path d.extension)

end SourceDirectory

end Trellis
