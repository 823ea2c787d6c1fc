import ApiForge.Text.Utf8
/-!
The target of a request: its path and its query. A target is a path with an
optional query, a star, a bare authority (which has no path), or an absolute
form with scheme and authority in front. A fragment is dropped. A path or query
may hold characters that should have been escaped, as long as nothing is
ambiguous; spaces and control characters may not stand anywhere.
-/

namespace ApiForge.Http

/-- What a request is addressed to. -/
structure Uri where
  path : String
  /-- What follows the first question mark. -/
  query : Option String := none
deriving DecidableEq, Repr, Inhabited

namespace Uri

/-- The greatest number of octets of a target. -/
def maxSize : Nat := 65534

/-- The greatest number of characters of a scheme. -/
def maxScheme : Nat := 64

-- ========================================================== characters

/-- A letter or digit of ASCII. -/
def isAlnum (c : Char) : Bool := c.isAlpha || c.isDigit

/-- Characters of a scheme. -/
def isSchemeChar (c : Char) : Bool :=
  isAlnum c || "+-.~".toList.contains c

/-- Characters of an authority, the percent sign apart. -/
def isAuthorityChar (c : Char) : Bool :=
  isAlnum c || "!$&'()*+,-.:;=@[]_~".toList.contains c

/-- Characters that end an authority. -/
def endsAuthority (c : Char) : Bool :=
  c == '/' || c == '?' || c == '#'

/-- Characters that are no space and no control. -/
def isShown (c : Char) : Bool :=
  0x21 ≤ c.toNat && c.toNat != 0x7F

/-- Characters of a path. -/
def isPathChar (c : Char) : Bool :=
  isShown c && !"#<>?\x60".toList.contains c

/-- Characters of a query. -/
def isQueryChar (c : Char) : Bool :=
  isShown c && !"\"#<>".toList.contains c

-- =========================================================== authority

/-- What has been seen of an authority from the left. -/
structure AuthorityScan where
  /-- Colons outside of brackets since the part before the last at sign. -/
  colons : Nat := 0
  opened : Bool := false
  closed : Bool := false
  /-- A percent sign, which only the part before an at sign or the part inside
  brackets may hold. -/
  escaped : Bool := false
  /-- The last character was an at sign. -/
  afterAt : Bool := false

namespace AuthorityScan

/-- The greatest number of colons in a row of numbers. -/
def maxColons : Nat := 8

/-- Takes in one character; nothing if it may not stand there. -/
def step (s : AuthorityScan) (c : Char) : Option AuthorityScan :=
  let s := { s with afterAt := c == '@' }
  match c with
  | ':' => if maxColons ≤ s.colons then none else some { s with colons := s.colons + 1 }
  | '[' => if s.escaped || s.opened then none else some { s with opened := true }
  | ']' =>
    if !s.opened || s.closed then none
    else some { s with closed := true, colons := 0, escaped := false }
  | '@' => some { s with colons := 0, escaped := false }
  | '%' => some { s with escaped := true }
  | c => if isAuthorityChar c then some s else none

/-- Whether an authority may end here. -/
def isFinal (s : AuthorityScan) : Bool :=
  s.opened == s.closed && s.colons ≤ 1 && !s.afterAt && !s.escaped

end AuthorityScan

/-- Whether characters form an authority, which may be empty. -/
def isAuthority (cs : List Char) : Bool :=
  match cs.foldlM AuthorityScan.step {} with
  | some s => s.isFinal
  | none => false

-- ============================================================= reading

/-- The scheme before a colon and two slashes, and what follows them. -/
def splitScheme (cs : List Char) : Option (List Char × List Char) :=
  match cs.dropWhile isSchemeChar with
  | ':' :: '/' :: '/' :: rest => some (cs.takeWhile isSchemeChar, rest)
  | _ => none

/-- Reads a path and a query. An empty path is the root. -/
def ofPathAndQuery? (cs : List Char) : Option Uri :=
  let shown := cs.takeWhile (· != '#')
  let path := shown.takeWhile (· != '?')
  let query := match shown.dropWhile (· != '?') with
    | _ :: query => some query
    | [] => none
  if path.all isPathChar && (query.getD []).all isQueryChar then
    some { path := if path.isEmpty then "/" else String.ofList path,
           query := query.map String.ofList }
  else none

/-- Reads a target. -/
def parse? (s : String) : Option Uri :=
  let cs := s.toList
  if maxSize < Text.Utf8.size s then none
  else match cs with
    | [] => none
    | ['*'] => some { path := "*" }
    | '/' :: _ => ofPathAndQuery? cs
    | _ =>
      match splitScheme cs with
      | none => if isAuthority cs then some { path := "" } else none
      | some (scheme, rest) =>
        let authority := rest.takeWhile fun c => !endsAuthority c
        if maxScheme < scheme.length || authority.isEmpty || !isAuthority authority then none
        else ofPathAndQuery? (rest.dropWhile fun c => !endsAuthority c)

end Uri

end ApiForge.Http
