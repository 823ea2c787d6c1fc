import ApiForge.Text.Blank
/-!
Paths in normal form: no two slashes side by side, and no slash at the end
unless it is all there is.
-/

namespace ApiForge.Http.Path

/-- One slash for every row of slashes. `after` says that a slash stands before. -/
def collapse (after : Bool) : List Char → List Char
  | [] => []
  | c :: rest =>
    if c == '/' then
      if after then collapse true rest else '/' :: collapse true rest
    else c :: collapse false rest

/-- The path without a slash at its end; the root keeps its own, and the empty
path becomes the root. -/
def dropLastSlash (cs : List Char) : List Char :=
  match cs with
  | [] => ['/']
  | [c] => [c]
  | cs => if cs.getLast? == some '/' then cs.dropLast else cs

/-- The normal form of a path. -/
def normalize (path : String) : String :=
  String.ofList (dropLastSlash (collapse false path.toList))

/-- The parts of a path between its slashes, without empty ones. -/
def segments (path : String) : List String :=
  ((Text.splitBy (· == '/') path.toList).filter fun s => !s.isEmpty).map String.ofList

end ApiForge.Http.Path
