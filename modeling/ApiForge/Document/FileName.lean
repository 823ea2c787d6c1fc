import ApiForge.Document.Read
import ApiForge.Text.Blank
/-!
The syntax of a document file, which its name tells.
-/

namespace ApiForge.Document

/-- The last part of a path that is neither empty nor the directory itself. -/
def lastPart (path : List Char) : Option (List Char) :=
  ((Text.splitBy (· == '/') path).filter fun p => !p.isEmpty && p != ['.']).getLast?

/-- What follows the last point of a file name, unless the point is its first
character. -/
def extension (name : List Char) : Option (List Char) :=
  if name == ['.', '.'] then none
  else
    let tail := name.reverse.takeWhile (· != '.')
    if tail.length + 1 < name.length then some tail.reverse else none

/-- The syntax of the file at a path: JSON if its extension says so in any case
of letters, and YAML otherwise. -/
def Syntax.ofPath (path : String) : Syntax :=
  match (lastPart path.toList).bind extension with
  | some e => if e.map Char.toLower == "json".toList then .json else .yaml
  | none => .yaml

end ApiForge.Document
