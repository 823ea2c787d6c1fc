import ApiForge.Text.Utf8
/-!
The characters of a YAML stream, each with its place. The stream is UTF-8 and
holds printable characters, tabs and line breaks only; a byte order mark is a
character like any other here, and the lexer decides where it counts for nothing.
A last cell with the NUL character, which no stream may hold, marks the end, so
that a lexer can look at what comes next without asking whether anything does.
-/

namespace ApiForge.Yaml

-- ========================================================== octets

/-- Whether a stream may hold a character. -/
def isAllowed (c : Char) : Bool :=
  let n := c.toNat
  n == 0x09 || n == 0x0A || n == 0x0D || (0x20 ≤ n && n ≤ 0x7E) || n == 0x85
    || (0xA0 ≤ n && n ≤ 0xFFFD) || 0x10000 ≤ n

/-- The characters of a stream, nothing for one that is ill formed or holds a
character it may not. -/
def characters? (octets : List UInt8) : Option (List Char) := do
  let cs ← Text.Utf8.decode? octets
  if cs.all isAllowed then some cs else none

-- ============================================================ cells

/-- A character with its place: the octets before it in the stream, its line, and
its number in the line. -/
structure Cell where
  char : Char
  offset : Nat
  line : Nat
  column : Nat
deriving Inhabited

/-- Whether a cell ends a line. -/
def isBreak (c : Char) : Bool :=
  c == '\n' || c == '\u2028' || c == '\u2029'

/-- Whether a character is a space or a tab. -/
def isBlank (c : Char) : Bool :=
  c == ' ' || c == '\t'

/-- Whether a character marks the end of the stream. -/
def isEnd (c : Char) : Bool :=
  c == '\x00'

/-- Whether a character is the byte order mark. -/
def isMark (c : Char) : Bool :=
  c == '\uFEFF'

/-- Whether a character ends a line or the stream. -/
def isBreakOrEnd (c : Char) : Bool :=
  isBreak c || isEnd c

/-- Whether a character is blank or ends a line or the stream. -/
def isBlankOrEnd (c : Char) : Bool :=
  isBlank c || isBreakOrEnd c

/-- Whether a character may stand in the names of anchors, handles and directives. -/
def isNameChar (c : Char) : Bool :=
  c.isAlphanum || c == '_' || c == '-'

/-- Places characters from a given place on. Every line end of plain text files
is one line feed, the two Unicode separators are kept. -/
def placeFrom (offset line column : Nat) : List Char → List Cell
  | [] => [⟨'\x00', offset, line, column⟩]
  | '\r' :: '\n' :: rest =>
    ⟨'\n', offset, line, column⟩ :: placeFrom (offset + 2) (line + 1) 0 rest
  | c :: rest =>
    let next := offset + c.utf8Size
    let c := if c == '\r' || c == '\u0085' then '\n' else c
    ⟨c, offset, line, column⟩ ::
      (if isBreak c then placeFrom next (line + 1) 0 rest
       else placeFrom next line (column + 1) rest)

/-- Places the characters of a stream. -/
def place (cs : List Char) : List Cell :=
  placeFrom 0 0 0 cs

/-- The next character. -/
def peek : List Cell → Char
  | [] => '\x00'
  | c :: _ => c.char

/-- The character after `n` others. -/
def peekAt (n : Nat) (cells : List Cell) : Char :=
  peek (cells.drop n)

/-- The column of the next character. -/
def columnOf : List Cell → Nat
  | [] => 0
  | c :: _ => c.column

/-- Whether the next characters are a document indicator at the start of a line. -/
def atIndicator (mark : Char) (cells : List Cell) : Bool :=
  columnOf cells == 0 && peek cells == mark && peekAt 1 cells == mark
    && peekAt 2 cells == mark && isBlankOrEnd (peekAt 3 cells)

/-- Whether a document starts or ends here. -/
def atDocumentEdge (cells : List Cell) : Bool :=
  atIndicator '-' cells || atIndicator '.' cells

/-- The longest stretch of characters that satisfy `p`, and what follows it. -/
def spanChars (p : Char → Bool) : List Cell → List Char × List Cell
  | [] => ([], [])
  | c :: rest =>
    if p c.char then
      let (taken, left) := spanChars p rest
      (c.char :: taken, left)
    else ([], c :: rest)

/-- What follows the blanks. -/
def dropBlanks (cells : List Cell) : List Cell :=
  cells.dropWhile fun c => isBlank c.char

/-- What follows the rest of the line, its end excluded. -/
def dropLine (cells : List Cell) : List Cell :=
  cells.dropWhile fun c => !isBreakOrEnd c.char

/-- The line end that stands here, if any, and what follows it. -/
def takeBreak : List Cell → List Char × List Cell
  | [] => ([], [])
  | c :: rest => if isBreak c.char then ([c.char], rest) else ([], c :: rest)

end ApiForge.Yaml
