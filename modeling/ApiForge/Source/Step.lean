import ApiForge.Text.Blank
/-!
Generated source as data: a list of steps, each of which writes whole lines.
Blocks are entered and left, and every line in a block is indented. Free text of
the document gets into the source through `doc` only, line by line behind a
comment mark.
-/

namespace ApiForge.Source

/-- A step of writing source. -/
inductive Step where
  | line (text : String)
  | blank
  /-- A line that opens a block. -/
  | enter (text : String)
  /-- A line that closes a block. -/
  | leave (text : String)
  /-- A line that closes a block and opens another. -/
  | turn (text : String)
  /-- A text as a comment, nothing if there is none. -/
  | doc (text : Option String)
deriving DecidableEq, Repr

/-- A line at a depth; an empty one is not indented. -/
def indented (depth : Nat) (text : String) : String :=
  if text.isEmpty then "\n"
  else String.ofList (List.replicate (4 * depth) ' ') ++ text ++ "\n"

/-- The lines of a comment. -/
def docLines (text : String) : List String :=
  (Text.lines (Text.trim text)).map fun line =>
    let line := Text.trimEnd line
    if line.isEmpty then "///" else "/// " ++ line

namespace Step

/-- What a step writes at a depth, and the depth after it. -/
def write (depth : Nat) : Step → String × Nat
  | line text => (indented depth text, depth)
  | blank => ("\n", depth)
  | enter text => (indented depth text, depth + 1)
  | leave text => (indented (depth - 1) text, depth - 1)
  | turn text => (indented (depth - 1) text, depth - 1 + 1)
  | doc none => ("", depth)
  | doc (some text) => (String.join ((docLines text).map (indented depth)), depth)

/-- What each of a list of steps writes. -/
def pieces (depth : Nat) : List Step → List String
  | [] => []
  | s :: rest =>
    let (text, depth) := s.write depth
    text :: pieces depth rest

end Step

/-- The source that a list of steps writes. -/
def text (steps : List Step) : String :=
  String.join (Step.pieces 0 steps)

end ApiForge.Source
