import ApiForge.Document.Basic
import ApiForge.Text.Blank
/-!
Reference pointers. A pointer names a shared entry by its section and its name;
in the name `~1` stands for a slash and `~0` for a tilde. `Pointer.parse` is the
only way in which a pointer text gets a meaning.
-/

namespace ApiForge

/-- The kinds of shared entries that a pointer may lead to. -/
inductive EntryKind where
  | schema
  | response
  | parameter
  | requestBody
deriving DecidableEq, Repr, Inhabited

namespace EntryKind

/-- The kind in error messages. -/
def name : EntryKind → String
  | schema => "schema"
  | response => "response"
  | parameter => "parameter"
  | requestBody => "request body"

/-- The section that holds the entries of a kind. -/
def sectionName : EntryKind → String
  | schema => "schemas"
  | response => "responses"
  | parameter => "parameters"
  | requestBody => "requestBodies"

/-- The kind of the entries in a section. -/
def ofSection? (s : String) : Option EntryKind :=
  [schema, response, parameter, requestBody].find? fun k => k.sectionName == s

end EntryKind

/-- Why a pointer leads nowhere. -/
inductive ResolveError where
  /-- The pointer leaves the document. -/
  | external (pointer : String)
  /-- The pointer does not have the form of one to a shared entry. -/
  | unsupported (pointer : String)
  | missing (pointer : String)
  /-- The entry is not of the kind that its place asks for. -/
  | kindMismatch (pointer : String) (expected : EntryKind)
  /-- An entry that is itself a pointer leads back to itself. -/
  | cycle (pointer : String)
deriving DecidableEq, Repr

/-- The wording of a resolution error. -/
def ResolveError.message : ResolveError → String
  | external p => "E1020: external reference not supported: " ++ p
  | unsupported p => "E1021: unsupported reference shape: " ++ p
  | missing p => "E1022: unresolved reference: " ++ p
  | kindMismatch p expected => "E1023: reference " ++ p ++ " is not a " ++ expected.name
  | cycle p => "E1024: reference cycle through " ++ p

/-- Where a shared entry stands. -/
structure Address where
  kind : EntryKind
  name : String
deriving DecidableEq, Repr, Inhabited

namespace Pointer

/-- Writes one character for every occurrence of a tilde followed by a digit. -/
def replaceMark (digit written : Char) : List Char → List Char
  | '~' :: c :: rest =>
    if c == digit then written :: replaceMark digit written rest
    else '~' :: replaceMark digit written (c :: rest)
  | c :: rest => c :: replaceMark digit written rest
  | [] => []

/-- The text of a segment: first slashes, then tildes are restored. -/
def unescape (segment : List Char) : List Char :=
  replaceMark '0' '~' (replaceMark '1' '/' segment)

/-- A name as a segment. -/
def escape (name : List Char) : List Char :=
  name.flatMap fun c =>
    if c == '~' then ['~', '0'] else if c == '/' then ['~', '1'] else [c]

/-- The pointer to a shared entry. -/
def ofAddress (a : Address) : String :=
  "#/components/" ++ a.kind.sectionName ++ "/" ++ String.ofList (escape a.name.toList)

/-- The unescaped segments of a path. -/
def segments (path : List Char) : List String :=
  (Text.splitBy (· == '/') path).map fun s => String.ofList (unescape s)

/-- The entry that a pointer names. -/
def parse (pointer : String) : Except ResolveError Address :=
  match pointer.toList with
  | '#' :: '/' :: path =>
    match segments path with
    | ["components", section_, name] =>
      match EntryKind.ofSection? section_ with
      | some kind =>
        if name.isEmpty then .error (.unsupported pointer) else .ok ⟨kind, name⟩
      | none => .error (.unsupported pointer)
    | _ => .error (.unsupported pointer)
  | '#' :: _ => .error (.unsupported pointer)
  | _ => .error (.external pointer)

/-- The last segment of a pointer, unescaped. -/
def lastName (pointer : String) : String :=
  ((segments pointer.toList).getLast?).getD ""

end Pointer

end ApiForge
