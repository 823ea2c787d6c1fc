import ApiForge.Cli.FilePath
import ApiForge.Log.Record
import ApiForge.Text.Utf8
/-!
What a run needs of its surroundings: files and folders, two streams of lines,
and a place for log records. A run is the same program over every host.

One host is a machine whose folders are in memory. Each file and each folder is
listed under the names that lead to it from the working folder. What lies outside
the working folder is reached by two points, which lead out of it, or from the root;
the folders on the way out exist, and `Folder.standard` lists what every machine has.
-/

namespace ApiForge.Cli

-- ================================================================ hosts

/-- Why a file or folder cannot be used. -/
inductive FileError where
  | notFound
  | present
  | notFolder
  | isFolder
  | nameTooLong
  /-- A path has a NUL character. -/
  | notPath
  /-- The octets of a file are no text. -/
  | notText
  | other (reason : String)
deriving DecidableEq, Repr

/-- The wording of a file error. -/
def FileError.message : FileError → String
  | notFound => "No such file or directory (os error 2)"
  | present => "File exists (os error 17)"
  | notFolder => "Not a directory (os error 20)"
  | isFolder => "Is a directory (os error 21)"
  | nameTooLong => "File name too long (os error 36)"
  | notPath => "file name contained an unexpected NUL byte"
  | notText => "stream did not contain valid UTF-8"
  | other reason => reason

/-- The surroundings of a run. -/
structure Host (m : Type → Type) where
  /-- The octets of a file. -/
  read : String → m (Except FileError (List UInt8))
  /-- Puts a text into a file, which need not exist before. -/
  write : String → String → m (Except FileError Unit)
  /-- Makes a folder inside one that exists. -/
  makeFolder : String → m (Except FileError Unit)
  isFolder : String → m Bool
  /-- Writes a line of output. -/
  out : String → m Unit
  /-- Writes a line for the user to read. -/
  note : String → m Unit
  log : Log.Format → Log.Record → m Unit

-- ============================================================== folders

/-- What stands at a place in a folder. -/
inductive FolderEntry where
  | file (contents : List UInt8)
  | folder
deriving DecidableEq, Repr

/-- The places of files and folders, each given by the names that lead to it. -/
abbrev Folder : Type := List (List String × FolderEntry)

namespace Folder

/-- The place of the root of all folders. -/
def root : List String := ["/"]

/-- What every machine has outside the working folder, as far as it matters: a file
in which nothing is written, and a folder for passing files. -/
def standard : Folder :=
  [(["/", "dev"], .folder), (["/", "dev", "null"], .file []), (["/", "tmp"], .folder)]

/-- Whether a place lies inside the working folder. -/
def isInside (place : List String) : Bool :=
  place.head? != some "/" && place.head? != some ".."

/-- What stands at a place; the working folder stands at the empty one. -/
def get? (f : Folder) (place : List String) : Option FolderEntry :=
  if place == root || place.all (· == "..") then some .folder else f.lookup place

/-- Puts an entry at a place. -/
def set (f : Folder) (place : List String) (e : FolderEntry) : Folder :=
  (f.filter fun x => x.1 != place) ++ [(place, e)]

/-- The place of the folder around a place; that of the root is the root. -/
def outside (place : List String) : List String :=
  if place == root then root
  else if place.all (· == "..") then place ++ [".."]
  else place.dropLast

/-- The place that names lead to from `here`. Every place on the way must be a
folder; the last need not exist. Two points lead out. -/
def walk (f : Folder) (here : List String) : List String → Except FileError (List String)
  | [] => .ok here
  | n :: rest =>
    match f.get? here with
    | none => .error .notFound
    | some (.file _) => .error .notFolder
    | some .folder =>
      if FilePath.maxNameSize < n.utf8ByteSize then .error .nameTooLong
      else walk f (if n = ".." then outside here else here ++ [n]) rest

/-- The place of a path. -/
def place (f : Folder) (path : String) : Except FileError (List String) :=
  if path.contains '\x00' then .error .notPath
  else if path.isEmpty then .error .notFound
  else if FilePath.maxSize < path.utf8ByteSize then .error .nameTooLong
  else f.walk (if FilePath.isAbsolute path then root else []) (FilePath.names path)

/-- Whether a path leads to a folder. -/
def isFolder (f : Folder) (path : String) : Bool :=
  match f.place path with
  | .ok p => f.get? p == some .folder
  | .error _ => false

/-- The octets of a file. -/
def read (f : Folder) (path : String) : Except FileError (List UInt8) := do
  match f.get? (← f.place path) with
  | none => throw .notFound
  | some .folder => throw .isFolder
  | some (.file contents) =>
    if FilePath.demandsFolder path then throw .notFolder else return contents

/-- Puts octets into a file. -/
def write (f : Folder) (path : String) (contents : List UInt8) : Except FileError Folder := do
  let p ← f.place path
  match f.get? p with
  | some .folder => throw .isFolder
  | some (.file _) =>
    if FilePath.demandsFolder path then throw .notFolder else return f.set p (.file contents)
  | none =>
    if FilePath.demandsFolder path then throw .isFolder else return f.set p (.file contents)

/-- Makes a folder inside one that exists. A single point is no name for a new
one. -/
def makeFolder (f : Folder) (path : String) : Except FileError Folder := do
  let p ← f.place path
  match f.get? p with
  | some .folder => throw .present
  | some (.file _) => throw (if FilePath.endsInPoint path then .notFolder else .present)
  | none => if FilePath.endsInPoint path then throw .notFound else return f.set p .folder

end Folder

end ApiForge.Cli
