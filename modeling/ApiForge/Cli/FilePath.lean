import ApiForge.Text.Blank
/-!
Paths of files: names with slashes between them. An empty name and a single point
stand for nothing.
-/

namespace ApiForge.Cli.FilePath

/-- The names in a path. -/
def names (path : String) : List String :=
  (Text.splitAtChar '/' path).filter fun n => !n.isEmpty && n != "."

/-- Whether a path begins at the root of all folders. -/
def isAbsolute (path : String) : Bool :=
  path.toList.head? == some '/'

/-- Whether the end of a path demands a folder. -/
def demandsFolder (path : String) : Bool :=
  match (Text.splitAtChar '/' path).getLast? with
  | some n => n.isEmpty || n == "." || n == ".."
  | none => false

/-- Whether a path ends in a single point, slashes after it aside. -/
def endsInPoint (path : String) : Bool :=
  ((Text.splitAtChar '/' path).filter fun n => !n.isEmpty).getLast? == some "."

/-- The most octets of a path. -/
def maxSize : Nat := 4095

/-- The most octets of a name in a path. -/
def maxNameSize : Nat := 255

/-- The path of a file in a folder. -/
def join (folder file : String) : String :=
  if folder.isEmpty || folder.toList.getLast? == some '/' then folder ++ file
  else folder ++ "/" ++ file

/-- The paths of the folders that a path goes through, from the inside out. -/
def above (path : String) : List String :=
  let start := if isAbsolute path then "/" else ""
  let ns := names path
  (List.range (ns.length - 1)).reverse.map fun i => start ++ "/".intercalate (ns.take (i + 1))

end ApiForge.Cli.FilePath
