import ApiForge.Yaml.Scalar
import ApiForge.Yaml.Tag
/-!
The tokens of a YAML stream. Indentation opens and closes block collections, so
the lexer keeps the columns of the open ones and writes tokens of its own where
they begin and end. A key without a question mark is known only once its colon
is met: the lexer remembers where such a key may have begun, and then puts the
key token, and the start of the mapping if it is a new one, in front of it. Such
a key stands on one line and has at most 1024 octets.
-/

namespace ApiForge.Yaml

/-- A token. -/
inductive Token where
  | version (major minor : Nat)
  | tagDirective (handle : String) (replacement : Tag)
  | documentStart
  | documentEnd
  | blockSequenceStart
  | blockMappingStart
  | blockEnd
  | flowSequenceStart
  | flowSequenceEnd
  | flowMappingStart
  | flowMappingEnd
  | blockEntry
  | flowEntry
  | key
  | value
  | alias (name : String)
  | anchor (name : String)
  | tag (handle : String) (suffix : Tag)
  | scalar (text : String) (style : ScalarStyle)
  | streamEnd
deriving DecidableEq, Inhabited

/-- Where a key without a question mark may have begun. -/
structure PossibleKey where
  /-- The indentation asks for a key here. -/
  required : Bool
  /-- How many tokens came before it. -/
  position : Nat
  cell : Cell

/-- The state of the lexer. -/
structure Lexer where
  cells : List Cell
  /-- Tokens read so far, last first. -/
  tokens : List Token := []
  count : Nat := 0
  /-- Whether a key may begin at the next token. -/
  keyAllowed : Bool := true
  /-- The possible key of the block context, and of each open flow collection,
  innermost first. -/
  keys : List (Option PossibleKey) := [none]
  /-- The columns of the open block collections, innermost first. -/
  indents : List Nat := []

namespace Lexer

-- ====================================================== bookkeeping

/-- Whether a flow collection is open. -/
def inFlow (l : Lexer) : Bool :=
  1 < l.keys.length

/-- Adds a token and moves on to the given cells. -/
def emit (l : Lexer) (t : Token) (cells : List Cell) : Lexer :=
  { l with tokens := t :: l.tokens, count := l.count + 1, cells }

/-- Puts a token in front of the one with the given number. -/
def insertAt (l : Lexer) (position : Nat) (t : Token) : Lexer :=
  let later := l.count - position
  { l with tokens := l.tokens.take later ++ t :: l.tokens.drop later, count := l.count + 1 }

/-- Opens a block collection at a column that lies deeper than the open ones; its
start goes in front of token number `position`. -/
def openBlock (l : Lexer) (column position : Nat) (start : Token) : Lexer :=
  let deeper := match l.indents with
    | [] => true
    | n :: _ => n < column
  if !l.inFlow && deeper then
    { l with indents := column :: l.indents }.insertAt position start
  else l

/-- Closes the block collections that lie deeper than a column. -/
def closeBlocks (l : Lexer) (keep : Nat → Bool) : Lexer :=
  if l.inFlow then l
  else
    let closed := l.indents.takeWhile fun n => !keep n
    { l with
      indents := l.indents.dropWhile fun n => !keep n
      tokens := closed.map (fun _ => Token.blockEnd) ++ l.tokens
      count := l.count + closed.length }

/-- Forgets the innermost possible key; a required one may not be forgotten. -/
def dropKey (l : Lexer) : Option Lexer :=
  match l.keys with
  | some k :: rest => if k.required then none else some { l with keys := none :: rest }
  | _ => some l

/-- Remembers that a key may begin at the next token. -/
def noteKey (l : Lexer) : Option Lexer :=
  if l.keyAllowed then do
    let l ← l.dropKey
    let cell := l.cells.headD default
    let required := !l.inFlow && l.indents.head? == some cell.column
    return { l with keys := some ⟨required, l.count, cell⟩ :: l.keys.tail }
  else some l

/-- Forgets the possible keys that the next cell is too far from. -/
def dropStaleKeys (l : Lexer) : Option Lexer := do
  let here := l.cells.headD default
  let stale (k : PossibleKey) : Bool :=
    k.cell.line < here.line || k.cell.offset + 1024 < here.offset
  let keys ← l.keys.mapM fun k =>
    match k with
    | some k => if stale k then (if k.required then none else some none) else some (some k)
    | none => some none
  return { l with keys }

-- ======================================================= white space

/-- Skips blanks, comments and line ends up to the next token, and a byte order
mark at the start of a line. A tab may not stand where a key may begin, and such is
every line start of block context. Answers whether a key may begin, and what
follows. -/
def skipSpace (inFlow keyAllowed inComment : Bool) : List Cell → Bool × List Cell
  | [] => (keyAllowed, [])
  | c :: rest =>
    if isBreak c.char then skipSpace inFlow (keyAllowed || !inFlow) false rest
    else if isEnd c.char then (keyAllowed, c :: rest)
    else if inComment then skipSpace inFlow keyAllowed true rest
    else if c.char == ' ' || (c.char == '\t' && (inFlow || !keyAllowed))
        || (isMark c.char && c.column == 0) then
      skipSpace inFlow keyAllowed false rest
    else if c.char == '#' then skipSpace inFlow keyAllowed true rest
    else (keyAllowed, c :: rest)

-- ================================================= directives and tags

/-- A number of at most nine digits. -/
def readNumber (cells : List Cell) : Option (Nat × List Cell) :=
  let (digits, rest) := spanChars Char.isDigit cells
  if digits.isEmpty || 9 < digits.length then none
  else some (digits.foldl (fun n c => 10 * n + (c.toNat - '0'.toNat)) 0, rest)

/-- A tag handle with the marks around it. -/
def readHandle (inDirective : Bool) (cells : List Cell) : Option (List Char × List Cell) :=
  if peek cells != '!' then none
  else
    let (name, rest) := spanChars isNameChar (cells.drop 1)
    if peek rest == '!' then some ('!' :: (name ++ ['!']), rest.drop 1)
    else if inDirective && !name.isEmpty then none
    else some ('!' :: name, rest)

/-- Whether a character may stand in a tag; between angle brackets the flow
indicators may too. -/
def isTagChar (verbatim : Bool) (c : Char) : Bool :=
  isNameChar c || ";/?:@&=+$.%!~*'()".toList.contains c
    || (verbatim && (c == ',' || c == '[' || c == ']'))

/-- The rest of a tag after the characters `start` of it. -/
def readTagText (verbatim : Bool) (start : List Char) (cells : List Cell) :
    Option (Tag × List Cell) := do
  let (cs, rest) := spanChars (isTagChar verbatim) cells
  guard (!start.isEmpty || !cs.isEmpty)
  let octets ← Tag.unescape hexValue? 0 cs
  return (Tag.ofOctets (Text.Utf8.encode start.tail ++ octets), rest)

/-- Skips what may follow a directive on its line. -/
def endDirective (cells : List Cell) : Option (List Cell) :=
  let rest := dropBlanks cells
  let rest := if peek rest == '#' then dropLine rest else rest
  if isBreakOrEnd (peek rest) then some (takeBreak rest).2 else none

/-- Reads a directive from behind its percent sign. -/
def readDirective (cells : List Cell) : Option (Token × List Cell) := do
  let (name, rest) := spanChars isNameChar cells
  guard (!name.isEmpty && isBlankOrEnd (peek rest))
  let rest := dropBlanks rest
  if name == "YAML".toList then
    let (major, rest) ← readNumber rest
    guard (peek rest == '.')
    let (minor, rest) ← readNumber (rest.drop 1)
    return (.version major minor, ← endDirective rest)
  else if name == "TAG".toList then
    let (handle, rest) ← readHandle true rest
    guard (isBlank (peek rest))
    let (replacement, rest) ← readTagText true [] (dropBlanks rest)
    guard (isBlankOrEnd (peek rest))
    return (.tagDirective (String.ofList handle) replacement, ← endDirective rest)
  else none

/-- Reads a tag. A tag without a second exclamation mark has the handle `!`; a
lone mark is a tag without a handle. -/
def readTag (inFlow : Bool) (cells : List Cell) : Option (Token × List Cell) := do
  let (token, rest) ←
    if peekAt 1 cells == '<' then do
      let (text, rest) ← readTagText true [] (cells.drop 2)
      guard (peek rest == '>')
      pure (Token.tag "" text, rest.drop 1)
    else do
      let (handle, rest) ← readHandle false cells
      if 1 < handle.length && handle.getLast? == some '!' then
        let (suffix, rest) ← readTagText false [] rest
        pure (Token.tag (String.ofList handle) suffix, rest)
      else
        let (suffix, rest) ← readTagText false handle rest
        pure (if suffix.octets.isEmpty then Token.tag "" .mark else Token.tag "!" suffix, rest)
  guard (isBlankOrEnd (peek rest) || (inFlow && peek rest == ','))
  return (token, rest)

/-- Reads the name of an anchor or alias from behind its mark. -/
def readAnchor (cells : List Cell) : Option (String × List Cell) :=
  let (name, rest) := spanChars isNameChar cells
  let next := peek rest
  if !name.isEmpty && (isBlankOrEnd next || "?:,]\x7d%@\x60".toList.contains next) then
    some (String.ofList name, rest)
  else none

-- ============================================================ tokens

/-- Ends the stream: closes all blocks and forgets the key. -/
def readEnd (l : Lexer) : Option Lexer := do
  let l ← (l.closeBlocks fun _ => false).dropKey
  return { l with keyAllowed := false }.emit .streamEnd []

/-- Reads a token that ends all blocks. -/
def atTop (l : Lexer) (t : Token) (rest : List Cell) : Option Lexer := do
  let l ← (l.closeBlocks fun _ => false).dropKey
  return { l with keyAllowed := false }.emit t rest

/-- Opens a flow collection, which may itself be a key. -/
def openFlow (l : Lexer) (t : Token) : Option Lexer := do
  let l ← l.noteKey
  return { l with keys := none :: l.keys, keyAllowed := true }.emit t (l.cells.drop 1)

/-- Closes a flow collection. -/
def closeFlow (l : Lexer) (t : Token) : Option Lexer := do
  let l ← l.dropKey
  let keys := if l.inFlow then l.keys.tail else l.keys
  return { l with keys, keyAllowed := false }.emit t (l.cells.drop 1)

/-- Reads the dash of a block entry. -/
def readBlockEntry (l : Lexer) : Option Lexer := do
  guard (l.inFlow || l.keyAllowed)
  let l ← (l.openBlock (columnOf l.cells) l.count .blockSequenceStart).dropKey
  return { l with keyAllowed := true }.emit .blockEntry (l.cells.drop 1)

/-- Reads the question mark of a key. -/
def readKey (l : Lexer) : Option Lexer := do
  guard (l.inFlow || l.keyAllowed)
  let l ← (l.openBlock (columnOf l.cells) l.count .blockMappingStart).dropKey
  return { l with keyAllowed := !l.inFlow }.emit .key (l.cells.drop 1)

/-- Reads the colon before a value. -/
def readValue (l : Lexer) : Option Lexer := do
  match l.keys with
  | some k :: rest =>
    let l := { l with keys := none :: rest }.insertAt k.position .key
    let l := l.openBlock k.cell.column k.position .blockMappingStart
    return { l with keyAllowed := false }.emit .value (l.cells.drop 1)
  | _ =>
    guard (l.inFlow || l.keyAllowed)
    let l := l.openBlock (columnOf l.cells) l.count .blockMappingStart
    return { l with keyAllowed := !l.inFlow }.emit .value (l.cells.drop 1)

/-- Reads a token that may begin a key. -/
def readAtom (l : Lexer) (read : List Cell → Option (Token × List Cell)) : Option Lexer := do
  let l ← l.noteKey
  let (t, rest) ← read l.cells
  return { l with keyAllowed := false }.emit t rest

/-- Reads a block scalar. -/
def readBlockToken (l : Lexer) (literal : Bool) : Option Lexer := do
  let l ← l.dropKey
  let (text, rest) ← readBlock literal l.indents.head? (l.cells.drop 1)
  let style := if literal then ScalarStyle.literal else ScalarStyle.folded
  return { l with keyAllowed := true }.emit (.scalar (String.ofList text) style) rest

/-- Reads a plain scalar; a key may begin behind it if a line has ended there. -/
def readPlainToken (l : Lexer) : Option Lexer := do
  let l ← l.noteKey
  let indent := match l.indents with
    | [] => 0
    | n :: _ => n + 1
  let p ← readPlain l.inFlow indent [] .none l.cells
  return { l with keyAllowed := p.endedLine }.emit (.scalar (String.ofList p.text) .plain) p.rest

/-- Whether a character begins a plain scalar only if something other than a
blank follows, or never. -/
def isIndicator (c : Char) : Bool :=
  "-?:,[]\x7b\x7d#&*!|>'\"%@\x60".toList.contains c

/-- Whether a plain scalar begins here. -/
def startsPlain (inFlow : Bool) (cells : List Cell) : Bool :=
  let c := peek cells
  let next := peekAt 1 cells
  (!isBlankOrEnd c && !isIndicator c)
    || (c == '-' && !isBlank next)
    || (!inFlow && (c == '?' || c == ':') && !isBlankOrEnd next)

/-- Reads the next token, with the tokens that its place asks for. -/
def next (l : Lexer) : Option Lexer := do
  let (keyAllowed, cells) := skipSpace l.inFlow l.keyAllowed false l.cells
  let l ← { l with keyAllowed, cells }.dropStaleKeys
  let l := l.closeBlocks fun n => n ≤ columnOf cells
  let c := peek cells
  let breaks := isBlankOrEnd (peekAt 1 cells)
  if isEnd c then l.readEnd
  else if columnOf cells == 0 && c == '%' then do
    let l ← (l.closeBlocks fun _ => false).dropKey
    let (t, rest) ← readDirective (cells.drop 1)
    return { l with keyAllowed := false }.emit t rest
  else if atIndicator '-' cells then l.atTop .documentStart (cells.drop 3)
  else if atIndicator '.' cells then l.atTop .documentEnd (cells.drop 3)
  else if c == '[' then l.openFlow .flowSequenceStart
  else if c == '\x7b' then l.openFlow .flowMappingStart
  else if c == ']' then l.closeFlow .flowSequenceEnd
  else if c == '\x7d' then l.closeFlow .flowMappingEnd
  else if c == ',' then do
    let l ← l.dropKey
    return { l with keyAllowed := true }.emit .flowEntry (cells.drop 1)
  else if c == '-' && breaks then l.readBlockEntry
  else if c == '?' && (l.inFlow || breaks) then l.readKey
  else if c == ':' && (l.inFlow || breaks) then l.readValue
  else if c == '*' then l.readAtom fun cs => (readAnchor (cs.drop 1)).map fun p => (.alias p.1, p.2)
  else if c == '&' then l.readAtom fun cs => (readAnchor (cs.drop 1)).map fun p => (.anchor p.1, p.2)
  else if c == '!' then l.readAtom (readTag l.inFlow)
  else if c == '|' && !l.inFlow then l.readBlockToken true
  else if c == '>' && !l.inFlow then l.readBlockToken false
  else if c == '\'' || c == '"' then
    l.readAtom fun cs =>
      (readQuoted (c == '\'') [] .none .content (cs.drop 1)).map fun p =>
        (.scalar (String.ofList p.1) .quoted, p.2)
  else if startsPlain l.inFlow cells then l.readPlainToken
  else none

/-- Reads tokens up to the end of the stream; `steps` bounds their number. -/
def run : Nat → Lexer → Option Lexer
  | 0, _ => none
  | steps + 1, l =>
    match l.next with
    | none => none
    | some l => if l.cells.isEmpty then some l else run steps l

end Lexer

/-- The tokens of a stream, nothing for a malformed one. Every step but the last
takes at least one cell. -/
def tokens? (cells : List Cell) : Option (List Token) :=
  (Lexer.run (cells.length + 1) { cells }).map fun l => l.tokens.reverse

end ApiForge.Yaml
