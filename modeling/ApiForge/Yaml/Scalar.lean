import ApiForge.Yaml.Cell
/-!
The texts of YAML scalars: plain, quoted with one or two marks, and blocks. Each
reader takes the cells from the scalar's first character on and answers the
text with the cells that follow it; nothing is answered for a malformed scalar.
A line end inside a flow scalar is folded: one end becomes a space, of several
the first is dropped.
-/

namespace ApiForge.Yaml

/-- How a scalar is written. -/
inductive ScalarStyle where
  | plain
  | quoted
  | literal
  | folded
deriving DecidableEq, Repr, Inhabited

-- ============================================================== gaps

/-- What has been read since the last character of content: nothing, blanks on
one line, or line ends. Characters are kept last first. -/
inductive Gap where
  | none
  | blanks (taken : List Char)
  /-- The first line end, and those after it. -/
  | breaks (first further : List Char)

namespace Gap

/-- Whether nothing has been read. -/
def isEmpty : Gap → Bool
  | none => true
  | _ => false

/-- Whether a line has ended. -/
def hasBreak : Gap → Bool
  | breaks _ _ => true
  | _ => false

/-- Adds a blank; blanks after a line end are indentation and are dropped. -/
def addBlank (c : Char) : Gap → Gap
  | none => blanks [c]
  | blanks taken => blanks (c :: taken)
  | breaks first further => breaks first further

/-- Adds a line end; blanks before it are dropped. -/
def addBreak (c : Char) : Gap → Gap
  | breaks first further => breaks first (c :: further)
  | _ => breaks [c] []

/-- The text that a gap between two pieces of content folds to, last character
first. -/
def folded : Gap → List Char
  | none => []
  | blanks taken => taken
  | breaks first further =>
    if first == ['\n'] then (if further.isEmpty then [' '] else further)
    else further ++ first

end Gap

-- ============================================================= plain

/-- A plain scalar: its text, what follows, and whether a line ended behind it. -/
structure Plain where
  text : List Char
  rest : List Cell
  endedLine : Bool

/-- Whether a colon followed by `c` is forbidden in flow context. -/
def isBadAfterColon (c : Char) : Bool :=
  c == ',' || c == '?' || c == '[' || c == ']' || c == '\x7b' || c == '\x7d'

/-- Whether a character ends a plain scalar in flow context. -/
def endsPlainInFlow (c : Char) : Bool :=
  c == ',' || c == '[' || c == ']' || c == '\x7b' || c == '\x7d'

/-- Reads a plain scalar. `text` is what has been read, last first, and `gap` what
follows it. `indent` is the least column that continues the scalar in block
context. -/
def readPlain (inFlow : Bool) (indent : Nat) (text : List Char) (gap : Gap) :
    List Cell → Option Plain
  | [] => some ⟨text.reverse, [], gap.hasBreak⟩
  | c :: rest =>
    let stop : Option Plain := some ⟨text.reverse, c :: rest, gap.hasBreak⟩
    if isBlank c.char then
      if gap.hasBreak && c.column < indent && c.char == '\t' then none
      else readPlain inFlow indent text (gap.addBlank c.char) rest
    else if isBreak c.char then readPlain inFlow indent text (gap.addBreak c.char) rest
    else if isEnd c.char then stop
    else if !gap.isEmpty
        && ((!inFlow && c.column < indent) || atDocumentEdge (c :: rest) || c.char == '#') then
      stop
    else if inFlow && c.char == ':' && isBadAfterColon (peek rest) then none
    else if (c.char == ':' && isBlankOrEnd (peek rest))
        || (inFlow && endsPlainInFlow c.char) then
      stop
    else readPlain inFlow indent (c.char :: (gap.folded ++ text)) .none rest

-- ============================================================ quoted

/-- The character that a short escape stands for. -/
def shortEscape? (c : Char) : Option Char :=
  match c with
  | '0' => some '\x00'
  | 'a' => some '\x07'
  | 'b' => some '\x08'
  | 't' => some '\t'
  | '\t' => some '\t'
  | 'n' => some '\n'
  | 'v' => some '\x0b'
  | 'f' => some '\x0c'
  | 'r' => some '\r'
  | 'e' => some '\x1b'
  | ' ' => some ' '
  | '"' => some '"'
  | '/' => some '/'
  | '\\' => some '\\'
  | 'N' => some '\u0085'
  | '_' => some '\u00a0'
  | 'L' => some '\u2028'
  | 'P' => some '\u2029'
  | _ => none

/-- The number of digits of a numeric escape. -/
def escapeLength? (c : Char) : Option Nat :=
  match c with
  | 'x' => some 2
  | 'u' => some 4
  | 'U' => some 8
  | _ => none

/-- The value of a hexadecimal digit. -/
def hexValue? (c : Char) : Option Nat :=
  if c.isDigit then some (c.toNat - '0'.toNat)
  else if 'A' ≤ c ∧ c ≤ 'F' then some (c.toNat - 'A'.toNat + 10)
  else if 'a' ≤ c ∧ c ≤ 'f' then some (c.toNat - 'a'.toNat + 10)
  else none

/-- The character with a code point, unless it is a surrogate or too large. -/
def charOf? (n : Nat) : Option Char :=
  if n.isValidChar then some (Char.ofNat n) else none

/-- What a quoted scalar is in the middle of. -/
inductive QuoteMode where
  | content
  /-- A backslash has been read. -/
  | escape
  /-- `left` digits of a code point are still to come. -/
  | code (value left : Nat)
  /-- A single mark has been read, which ends the scalar unless another follows. -/
  | mark

/-- Reads a quoted scalar from behind its first mark. -/
def readQuoted (single : Bool) (text : List Char) (gap : Gap) (mode : QuoteMode) :
    List Cell → Option (List Char × List Cell)
  | [] => none
  | c :: rest =>
    match mode with
    | .escape =>
      if isBreak c.char then readQuoted single text (.breaks [] []) .content rest
      else
        match shortEscape? c.char, escapeLength? c.char with
        | some e, _ => readQuoted single (e :: text) .none .content rest
        | none, some n => readQuoted single text .none (.code 0 n) rest
        | none, none => none
    | .code value left =>
      match hexValue? c.char with
      | none => none
      | some d =>
        let value := value * 16 + d
        if left ≤ 1 then
          match charOf? value with
          | some e => readQuoted single (e :: text) .none .content rest
          | none => none
        else readQuoted single text .none (.code value (left - 1)) rest
    | .mark =>
      if c.char == '\'' then readQuoted single ('\'' :: text) .none .content rest
      else some (text.reverse, c :: rest)
    | .content =>
      if isBlank c.char then readQuoted single text (gap.addBlank c.char) .content rest
      else if isBreak c.char then readQuoted single text (gap.addBreak c.char) .content rest
      else if isEnd c.char then none
      else if atDocumentEdge (c :: rest) then none
      else
        let text := gap.folded ++ text
        if single then
          if c.char == '\'' then readQuoted single text .none .mark rest
          else readQuoted single (c.char :: text) .none .content rest
        else if c.char == '"' then some (text.reverse, rest)
        else if c.char == '\\' then readQuoted single text .none .escape rest
        else readQuoted single (c.char :: text) .none .content rest

-- ============================================================ blocks

/-- What happens to the line ends behind a block. -/
inductive Chomping where
  | clip
  | strip
  | keep
deriving DecidableEq

/-- The header of a block: what the indicators after its first character say,
and the cells of its first line. -/
def readBlockHeader (cells : List Cell) : Option (Chomping × Option Nat × List Cell) := do
  let chomping (c : Char) : Option Chomping :=
    if c == '+' then some .keep else if c == '-' then some .strip else none
  let width (c : Char) : Option Nat :=
    if c.isDigit then some (c.toNat - '0'.toNat) else none
  let (ch, w, rest) :=
    match chomping (peek cells) with
    | some ch =>
      match width (peekAt 1 cells) with
      | some w => (ch, some w, cells.drop 2)
      | none => (ch, none, cells.drop 1)
    | none =>
      match width (peek cells) with
      | some w =>
        match chomping (peekAt 1 cells) with
        | some ch => (ch, some w, cells.drop 2)
        | none => (.clip, some w, cells.drop 1)
      | none => (.clip, none, cells)
  guard (w != some 0)
  let rest := dropBlanks rest
  let rest := if peek rest == '#' then dropLine rest else rest
  guard (isBreakOrEnd (peek rest))
  return (ch, w, (takeBreak rest).2)

/-- Reads the blank lines and the indentation in front of a line of a block.
Answers the greatest column met, the line ends and what follows. While the
indentation is unknown (`none`) any depth is taken. -/
def readBlockBreaks (indent : Option Nat) (deepest : Nat) (ends : List Char) :
    List Cell → Option (Nat × List Char × List Cell)
  | [] => some (deepest, ends.reverse, [])
  | c :: rest =>
    let inside := match indent with
      | none => true
      | some n => c.column < n
    if inside && c.char == ' ' then readBlockBreaks indent deepest ends rest
    else
      let deepest := max deepest c.column
      if inside && c.char == '\t' then none
      else if isBreak c.char then readBlockBreaks indent deepest (c.char :: ends) rest
      else some (deepest, ends.reverse, c :: rest)

/-- Reads the lines of a block. `lineEnd` is the end of the latest line, `ends`
the line ends of the blank lines after it, and `ledBlank` says whether that line
began with a blank; `lines` bounds the number of lines still to come. -/
def readBlockLines (literal : Bool) (chomping : Chomping) (indent : Nat) (text : List Char)
    (lineEnd ends : List Char) (ledBlank : Bool) :
    Nat → List Cell → Option (List Char × List Cell)
  | 0, cells => some (text, cells)
  | lines + 1, cells =>
    if columnOf cells == indent && !isEnd (peek cells) then
      let blank := isBlank (peek cells)
      let join : List Char :=
        if !literal && lineEnd == ['\n'] && !ledBlank && !blank then
          (if ends.isEmpty then [' '] else ends)
        else lineEnd ++ ends
      let (content, rest) := spanChars (fun c => !isBreakOrEnd c) cells
      let (lineEnd, rest) := takeBreak rest
      match readBlockBreaks (some indent) 0 [] rest with
      | none => none
      | some (_, ends, rest) =>
        readBlockLines literal chomping indent (text ++ join ++ content) lineEnd ends blank
          lines rest
    else
      let tail := match chomping with
        | .strip => []
        | .clip => lineEnd
        | .keep => lineEnd ++ ends
      some (text ++ tail, cells)

/-- Reads a block from behind its first character. `parent` is the indentation of
the block around it, nothing outside of all blocks. -/
def readBlock (literal : Bool) (parent : Option Nat) (cells : List Cell) :
    Option (List Char × List Cell) := do
  let (chomping, width, rest) ← readBlockHeader cells
  let given := width.map fun w => parent.getD 0 + w
  let (deepest, ends, rest) ← readBlockBreaks given 0 [] rest
  let least := match parent with
    | none => 1
    | some n => n + 1
  let indent := given.getD (max deepest least)
  readBlockLines literal chomping indent [] [] ends false (rest.length + 1) rest

end ApiForge.Yaml
