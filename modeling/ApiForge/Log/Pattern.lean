import ApiForge.Numeric.FloatText
import ApiForge.Text.Blank
import ApiForge.Text.Letter
/-!
The patterns that a filter may ask the value of a field to match: regular
expressions without counted repetitions. They are checked here and never matched,
because a directive with a value shows no record. A pattern is faulty when it is
malformed, when it asks for a table of Unicode letters (digits, words and blanks of
every script, letters in any case), or when it asks for the edges of words of every
script. Consumed by `ApiForge.Log.Filter`.
-/

namespace ApiForge.Log.Pattern

/-- Why a text is no pattern that can be matched. -/
inductive Fault where
  | malformed
  /-- The pattern asks for the edges of words of every script. -/
  | edges
deriving DecidableEq, Repr

/-- The wording of a fault. -/
def Fault.message : Fault → String
  | malformed => "error building NFA"
  | edges =>
    "unsupported regex feature for DFAs: cannot build DFAs for regexes with Unicode word boundaries; switch to ASCII word boundaries, or heuristically enable Unicode word boundaries or use a different regex engine"

-- ================================================================ modes

/-- The flags that hold at a place of a pattern. -/
structure Mode where
  /-- Letters match in any case. -/
  anyCase : Bool := false
  /-- Characters are meant, not octets. -/
  unicode : Bool := true
  /-- Blanks do not count, and a number sign begins a comment. -/
  spaced : Bool := false
deriving DecidableEq, Repr

namespace Mode

/-- What follows blanks and comments; `inComment` says whether a comment is
open. -/
def afterBlanks (inComment : Bool) : List Char → List Char
  | [] => []
  | c :: rest =>
    if inComment then afterBlanks (c != '\n') rest
    else if Text.isBlank c then afterBlanks false rest
    else if c = '#' then afterBlanks true rest
    else c :: rest

/-- What follows the characters that do not count. -/
def skip (m : Mode) (cs : List Char) : List Char :=
  if m.spaced then afterBlanks false cs else cs

/-- The mode after flags: those after a minus sign are taken away. -/
def withFlags (m : Mode) (flags : List Char) : Mode :=
  let given := flags.takeWhile (· != '-')
  let taken := flags.dropWhile (· != '-')
  let holds (flag : Char) (before : Bool) : Bool :=
    given.contains flag || (before && !taken.contains flag)
  ⟨holds 'i' m.anyCase, holds 'u' m.unicode, holds 'x' m.spaced⟩

end Mode

-- =============================================================== pieces

/-- The smallest parts of a pattern. -/
inductive Piece where
  | char (c : Char)
  /-- A character that is written as an octet above the ASCII range. -/
  | octet (c : Char)
  | anyChar
  /-- Digits, blanks or characters of words, or what is none of them. -/
  | kind (complement : Bool)
  /-- A named set of ASCII characters, or what is not in it. -/
  | named (complement : Bool)
  /-- A place between characters; `ofWord` when it is the edge of a word. -/
  | place (ofWord : Bool)
deriving DecidableEq, Repr

namespace Piece

/-- The character that a piece stands for. -/
def char? : Piece → Option Char
  | char c => some c
  | octet c => some c
  | _ => none

/-- Whether a piece can stand in a pattern outside brackets. Without characters
only sets within ASCII can be matched. -/
def isFit (m : Mode) : Piece → Bool
  | char _ => !m.unicode || !m.anyCase
  | octet _ => m.unicode && !m.anyCase
  | anyChar => m.unicode
  | kind complement => !m.unicode && !complement
  | named complement => if m.unicode then !m.anyCase else !complement
  | place _ => true

/-- Whether a piece can stand in brackets. -/
def isMember (m : Mode) (p : Piece) : Bool :=
  p.isFit m && match p with
    | char c => m.unicode || c.toNat < 0x80
    | anyChar => false
    | place _ => false
    | _ => true

/-- The value of a hexadecimal digit. -/
def digit? (c : Char) : Option Nat :=
  if c.isDigit then some (c.toNat - '0'.toNat)
  else if 'a' ≤ c ∧ c ≤ 'f' then some (c.toNat - 'a'.toNat + 10)
  else if 'A' ≤ c ∧ c ≤ 'F' then some (c.toNat - 'A'.toNat + 10)
  else none

/-- Reads as many hexadecimal digits as are still to come. -/
def readDigits (m : Mode) (value : Nat) : Nat → List Char → Option (Nat × List Char)
  | 0, cs => some (value, cs)
  | _ + 1, [] => none
  | due + 1, c :: rest =>
    (digit? c).bind fun d => readDigits m (16 * value + d) due (m.skip rest)

/-- Reads a character by its number in so many hexadecimal digits. -/
def readNumbered (m : Mode) (width : Nat) (cs : List Char) : Option (Piece × List Char) :=
  (readDigits m 0 width (m.skip cs)).bind fun (n, rest) =>
    if n.isValidChar then
      let c := Char.ofNat n
      some (if width = 2 && 0x80 ≤ n then octet c else char c, rest)
    else none

/-- The control characters with a letter of their own. -/
def controls : List (Char × Char) :=
  [('a', '\x07'), ('f', '\x0c'), ('t', '\t'), ('n', '\n'), ('r', '\r'), ('v', '\x0b')]

/-- Reads what follows a backslash. -/
def readEscape (m : Mode) : List Char → Option (Piece × List Char)
  | [] => none
  | c :: rest =>
    if c = 'x' then readNumbered m 2 rest
    else if c = 'u' then readNumbered m 4 rest
    else if c = 'U' then readNumbered m 8 rest
    else if "dsw".toList.contains c then some (kind false, rest)
    else if "DSW".toList.contains c then some (kind true, rest)
    else if "Az".toList.contains c then some (place false, rest)
    else if "bB<>".toList.contains c then some (place true, rest)
    else
      match controls.lookup c with
      | some control => some (char control, rest)
      | none => if c.isAlphanum || 0x80 ≤ c.toNat then none else some (char c, rest)

/-- Reads a piece outside brackets. -/
def read (m : Mode) : List Char → Option (Piece × List Char)
  | [] => none
  | '\\' :: rest => readEscape m rest
  | '.' :: rest => some (anyChar, rest)
  | '^' :: rest => some (place false, rest)
  | '$' :: rest => some (place false, rest)
  | c :: rest => some (char c, rest)

/-- Reads a piece in brackets, where only the backslash has a meaning of its
own. -/
def readMember (m : Mode) : List Char → Option (Piece × List Char)
  | [] => none
  | '\\' :: rest => readEscape m rest
  | c :: rest => some (char c, rest)

end Piece

-- ============================================================= brackets

/-- Where a reader of brackets is. -/
inductive Spot where
  /-- After the opening bracket, where a closing one stands for itself. -/
  | opening
  /-- After the leading hyphens, which stand for themselves. -/
  | hyphens
  | inside
deriving DecidableEq, Repr

/-- The names of sets of ASCII characters. -/
def setNames : List String :=
  ["alnum", "alpha", "ascii", "blank", "cntrl", "digit", "graph", "lower", "print", "punct",
    "space", "upper", "word", "xdigit"]

/-- Reads a named set after its opening bracket. -/
def readNamed? : List Char → Option (Piece × List Char)
  | ':' :: cs =>
    let name := if cs.head? = some '^' then cs.drop 1 else cs
    match name.dropWhile (· != ':') with
    | ':' :: ']' :: rest =>
      if setNames.contains (String.ofList (name.takeWhile (· != ':'))) then
        some (.named (cs.head? = some '^'), rest)
      else none
    | _ => none
  | _ => none

/-- Reads what stands before the members of brackets: a mark of the complement,
which is not within ASCII. -/
def readComplement (m : Mode) (cs : List Char) : Option (List Char) :=
  match m.skip cs with
  | '^' :: rest => if m.unicode then some rest else none
  | rest => some rest

/-- Reads a member of brackets, or two with a hyphen between them for all from the
one to the other. A hyphen before a closing bracket or another hyphen is none
such. -/
def readRange (m : Mode) (cs : List Char) : Option (List Char) :=
  (Piece.readMember m cs).bind fun (first, rest) =>
    if !first.isMember m then none
    else
      match m.skip rest with
      | '-' :: after =>
        let next := (m.skip after).head?
        if next = some ']' || next = some '-' then some ('-' :: after)
        else
          (Piece.readMember m (m.skip after)).bind fun (last, rest) =>
            match first.char?, last.char? with
            | some a, some b => if last.isMember m && a ≤ b then some rest else none
            | _, _ => none
      | rest => some rest

/-- Reads the members of brackets, with `depth` brackets open around them, up to
what follows the outermost closing bracket. -/
def readMembers (m : Mode) : Nat → Nat → Spot → List Char → Option (List Char)
  | 0, _, _, _ => none
  | fuel + 1, depth, spot, cs =>
    let cs := m.skip cs
    match cs, spot with
    | '-' :: rest, .opening | '-' :: rest, .hyphens =>
      if (Piece.char '-').isMember m then readMembers m fuel depth .hyphens rest else none
    | ']' :: rest, .opening =>
      if (Piece.char ']').isMember m then readMembers m fuel depth .inside rest else none
    | ']' :: rest, _ =>
      match depth with
      | 0 => some rest
      | depth + 1 => readMembers m fuel depth .inside rest
    | '[' :: rest, _ =>
      match readNamed? rest with
      | some (p, rest) => if p.isMember m then readMembers m fuel depth .inside rest else none
      | none =>
        (readComplement m rest).bind fun rest => readMembers m fuel (depth + 1) .opening rest
    | '&' :: '&' :: rest, _ | '-' :: '-' :: rest, _ | '~' :: '~' :: rest, _ =>
      readMembers m fuel depth .inside rest
    | cs, _ => (readRange m cs).bind fun rest => readMembers m fuel depth .inside rest

/-- Reads what follows an opening bracket, up to what follows its closing one. -/
def readBrackets (m : Mode) (cs : List Char) : Option (List Char) :=
  (readComplement m cs).bind fun rest => readMembers m (rest.length + 1) 0 .opening rest

-- =============================================================== groups

/-- How far a pattern is read. -/
structure State where
  mode : Mode := {}
  /-- The modes outside the open groups, the innermost first. -/
  outer : List Mode := []
  /-- The names of the groups. -/
  names : List (List Char) := []
  /-- What was read last can be repeated. -/
  repeatable : Bool := false
  /-- The pattern asks for the edges of words of every script. -/
  edges : Bool := false
deriving DecidableEq, Repr

namespace State

/-- The state after an opening parenthesis. -/
def enter (s : State) (inner : Mode) : State :=
  { s with mode := inner, outer := s.mode :: s.outer, repeatable := false }

/-- Whether a text can name a group. -/
def isGroupName : List Char → Bool
  | [] => false
  | c :: rest =>
    (c = '_' || Text.isLetter c)
      && rest.all fun c => "_.[]".toList.contains c || Text.isLetterOrDigit c

/-- Whether characters are flags: no one twice, and none missing after a minus
sign. -/
def areFlags (cs : List Char) : Bool :=
  cs.all "imsUuRx-".toList.contains && cs.eraseDups.length = cs.length && cs.getLast? != some '-'

/-- Reads the name of a group and what closes it. -/
def readName (s : State) (cs : List Char) : Option (State × List Char) :=
  let name := cs.takeWhile (· != '>')
  match cs.dropWhile (· != '>') with
  | [] => none
  | _ :: rest =>
    if isGroupName name && !s.names.contains name then
      some ({ s with names := name :: s.names }.enter s.mode, rest)
    else none

/-- Reads flags: for a group, or for the rest of the group around them. -/
def readFlags (s : State) (cs : List Char) : Option (State × List Char) :=
  let isEnd (c : Char) : Bool := c = ':' || c = ')'
  let flags := cs.takeWhile fun c => !isEnd c
  if !areFlags flags then none
  else
    let mode := s.mode.withFlags flags
    match cs.dropWhile fun c => !isEnd c with
    | ':' :: rest => some (s.enter mode, rest)
    | _ :: rest => if flags.isEmpty then none else some ({ s with mode, repeatable := false }, rest)
    | [] => none

/-- Reads what follows an opening parenthesis. -/
def readGroup (s : State) (cs : List Char) : Option (State × List Char) :=
  match s.mode.skip cs with
  | '?' :: 'P' :: '<' :: rest => s.readName rest
  | '?' :: '<' :: rest => s.readName rest
  | '?' :: rest => s.readFlags rest
  | rest => some (s.enter s.mode, rest)

/-- The state after a piece. -/
def withPiece (s : State) (p : Piece) : State :=
  { s with repeatable := true, edges := s.edges || (s.mode.unicode && p == .place true) }

/-- Reads a pattern to its end. -/
def read : Nat → State → List Char → Option State
  | 0, _, _ => none
  | fuel + 1, s, cs =>
    let cs := s.mode.skip cs
    match cs with
    | [] => if s.outer.isEmpty then some s else none
    | '(' :: rest => (s.readGroup rest).bind fun (s, rest) => read fuel s rest
    | ')' :: rest =>
      match s.outer with
      | [] => none
      | mode :: outer => read fuel { s with mode, outer, repeatable := true } rest
    | '|' :: rest => read fuel { s with repeatable := false } rest
    | '[' :: rest =>
      (readBrackets s.mode rest).bind fun rest => read fuel { s with repeatable := true } rest
    | '\x7b' :: _ => none
    | c :: rest =>
      if "?*+".toList.contains c then if s.repeatable then read fuel s rest else none
      else
        (Piece.read s.mode cs).bind fun (p, rest) =>
          if p.isFit s.mode then read fuel (s.withPiece p) rest else none

end State

/-- What is wrong with a pattern. -/
def fault? (cs : List Char) : Option Fault :=
  match State.read (cs.length + 1) {} cs with
  | none => some .malformed
  | some s => if s.edges then some .edges else none

end ApiForge.Log.Pattern
