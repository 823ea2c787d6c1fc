import ApiForge.Json.Text
/-!
The written forms of JSON values.

A `Form` is a value as it is written: each string with the escapes that are
chosen for its characters, each number with its digits, and the white space
between the tokens. `Form.text` is the text and `Form.treeAt` what it denotes, both
by recursion over the form. A text is well formed if it is the text of a form.
-/

namespace ApiForge.Json

open ApiForge.Text.Utf8 (encode)

-- ================================================ statement vocabulary

/-- White space between tokens. -/
inductive White where
  | space
  | tab
  | feed
  | ret
deriving DecidableEq

def White.char : White → Char
  | space => ' '
  | tab => '\t'
  | feed => '\n'
  | ret => '\r'

/-- The white space in one place. -/
abbrev Gap : Type := List White

def Gap.chars (g : Gap) : List Char := g.map White.char

/-- Whether a character may stand in a string as it is. -/
def IsPlain (c : Char) : Prop := 0x20 ≤ c.toNat ∧ c ≠ '"' ∧ c ≠ '\\'

instance (c : Char) : Decidable (IsPlain c) :=
  inferInstanceAs (Decidable (_ ∧ _))

/-- The escapes of one letter. -/
inductive Short where
  | quote
  | backslash
  | slash
  | backspace
  | formFeed
  | lineFeed
  | carriageReturn
  | tab

namespace Short

/-- The letter behind the backslash. -/
def letter : Short → Char
  | quote => '"'
  | backslash => '\\'
  | slash => '/'
  | backspace => 'b'
  | formFeed => 'f'
  | lineFeed => 'n'
  | carriageReturn => 'r'
  | tab => 't'

/-- The character that is meant. -/
def char : Short → Char
  | quote => '"'
  | backslash => '\\'
  | slash => '/'
  | backspace => '\x08'
  | formFeed => '\x0c'
  | lineFeed => '\n'
  | carriageReturn => '\r'
  | tab => '\t'

end Short

/-- A hexadecimal digit in either case. -/
structure Hex where
  value : Fin 16
  upper : Bool := false

def Hex.char (h : Hex) : Char :=
  if h.upper then h.value.val.digitChar.toUpper else h.value.val.digitChar

/-- A part of a string as it is written. -/
inductive Atom where
  | plain (c : Char) (h : IsPlain c)
  | short (s : Short)
  /-- A code unit of UTF-16 by its number. -/
  | unit (a b c d : Hex)

namespace Atom

def chars : Atom → List Char
  | plain c _ => [c]
  | short s => ['\\', s.letter]
  | unit a b c d => ['\\', 'u', a.char, b.char, c.char, d.char]

/-- The code unit that four digits give. -/
def unitOf (a b c d : Hex) : Nat :=
  ((a.value * 16 + b.value) * 16 + c.value) * 16 + d.value

/-- Whether a number is that of half a character. -/
def IsSurrogate (n : Nat) : Prop := 0xD800 ≤ n ∧ n ≤ 0xDFFF

instance (n : Nat) : Decidable (IsSurrogate n) :=
  inferInstanceAs (Decidable (_ ∧ _))

/-- The character that a part stands for by itself. -/
def char? : Atom → Option Char
  | plain c _ => some c
  | short s => some s.char
  | unit a b c d =>
    if IsSurrogate (unitOf a b c d) then none else some (Char.ofNat (unitOf a b c d))

/-- What the reader makes of a part behind others. -/
def put (p : Text.Piece) : Atom → Text.Piece
  | plain c _ => p.add (encode [c])
  | short s => p.add (encode [s.char])
  | unit a b c d => p.addUnit (unitOf a b c d)

end Atom

/-- The characters of a string between its quotes. -/
def atomChars (atoms : List Atom) : List Char := atoms.flatMap Atom.chars

/-- The characters of a string. -/
def quoted (atoms : List Atom) : List Char := '"' :: (atomChars atoms ++ ['"'])

/-- What a string denotes: a text, or nothing that can be read. -/
def textTree (atoms : List Atom) : Tree := (atoms.foldl Atom.put {}).toTree

/-- The characters of a number, of which the reader can make one. -/
structure Numeral where
  chars : List Char
  isNumber : (Number.lexeme? chars).isSome

def Numeral.tree (n : Numeral) : Tree :=
  (Number.value? ((Number.lexeme? n.chars).get n.isNumber)).getD .unreadable

/-- Something with the white space around it. -/
structure Slot (α : Type) where
  before : Gap := []
  body : α
  after : Gap := []

/-- A value as it is written. -/
inductive Form where
  | null
  | bool (b : Bool)
  | number (n : Numeral)
  | string (atoms : List Atom)
  | noItems (gap : Gap)
  | items (first : Slot Form) (rest : List (Slot Form))
  | noMembers (gap : Gap)
  | members (first : Slot (List Atom) × Slot Form) (rest : List (Slot (List Atom) × Slot Form))

/-- The key of a member, as it is written. -/
abbrev Key : Type := Slot (List Atom)

/-- The characters of a key and its colon. -/
def keyChars (k : Key) : List Char :=
  k.before.chars ++ (quoted k.body ++ (k.after.chars ++ [':']))

/-- What a container at a depth denotes. -/
def atDepth (depth : Nat) (t : Tree) : Tree :=
  if Text.maxDepth ≤ depth then .unreadable else t

namespace Form

mutual

/-- The characters of a value. -/
def text : Form → List Char
  | null => ['n', 'u', 'l', 'l']
  | bool true => ['t', 'r', 'u', 'e']
  | bool false => ['f', 'a', 'l', 's', 'e']
  | number n => n.chars
  | string atoms => quoted atoms
  | noItems gap => '[' :: (gap.chars ++ [']'])
  | items ⟨before, f, after⟩ rest =>
    '[' :: (before.chars ++ (f.text ++ (after.chars ++ (itemsText rest ++ [']']))))
  | noMembers gap => '\x7b' :: (gap.chars ++ ['\x7d'])
  | members (k, ⟨before, f, after⟩) rest =>
    '\x7b' :: (keyChars k ++ (before.chars ++ (f.text ++ (after.chars ++
      (membersText rest ++ ['\x7d'])))))

/-- The characters of the items behind the first, each with its comma. -/
def itemsText : List (Slot Form) → List Char
  | [] => []
  | ⟨before, f, after⟩ :: rest =>
    ',' :: (before.chars ++ (f.text ++ (after.chars ++ itemsText rest)))

/-- The characters of the members behind the first, each with its comma. -/
def membersText : List (Key × Slot Form) → List Char
  | [] => []
  | (k, ⟨before, f, after⟩) :: rest =>
    ',' :: (keyChars k ++ (before.chars ++ (f.text ++ (after.chars ++ membersText rest))))

end

mutual

/-- What a value denotes that stands in `depth` containers. -/
def treeAt (depth : Nat) : Form → Tree
  | null => .null
  | bool b => .bool b
  | number n => n.tree
  | string atoms => textTree atoms
  | noItems _ => atDepth depth (.seq [])
  | items ⟨_, f, _⟩ rest =>
    atDepth depth (.seq (f.treeAt (depth + 1) :: itemTrees (depth + 1) rest))
  | noMembers _ => atDepth depth (.map [])
  | members (k, ⟨_, f, _⟩) rest =>
    atDepth depth
      (.map ((textTree k.body, f.treeAt (depth + 1)) :: memberTrees (depth + 1) rest))

/-- What the items behind the first denote. -/
def itemTrees (depth : Nat) : List (Slot Form) → List Tree
  | [] => []
  | ⟨_, f, _⟩ :: rest => f.treeAt depth :: itemTrees depth rest

/-- What the members behind the first denote. -/
def memberTrees (depth : Nat) : List (Key × Slot Form) → List (Tree × Tree)
  | [] => []
  | (k, ⟨_, f, _⟩) :: rest =>
    (textTree k.body, f.treeAt depth) :: memberTrees depth rest

end

end Form

end ApiForge.Json
