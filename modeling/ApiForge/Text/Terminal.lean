/-!
What is left of a text for a terminal when its control sequences are taken out. A
sequence begins with an escape character; one that sets colours ends at its first
letter, a title at the bell, and a command string only at the next sequence. Of the
other control characters only tabs, line feeds, form feeds and carriage returns
stay, and they break off a sequence that they stand in. Consumed by the pages of
help.
-/

namespace ApiForge.Text.Terminal

/-- What a reader of terminal text is in the middle of. -/
inductive Mode where
  | plain
  /-- The escape character has been read. -/
  | escape
  /-- A sequence of two letters or more, whose intermediate letters are being read. -/
  | escapeMiddle
  /-- A control sequence: numbers, then a letter. -/
  | control
  /-- The numbers before a command string. -/
  | commandStart
  /-- A command string or a string without use. -/
  | command
  /-- A command of the operating system, such as a title. -/
  | title
deriving DecidableEq, Repr

/-- Whether a control character stays in the text. -/
def isKept (c : Char) : Bool :=
  c == '\t' || c == '\n' || c == '\x0c' || c == '\r'

/-- Whether a character breaks off every sequence. -/
def isCancel (c : Char) : Bool :=
  c == '\x18' || c == '\x1a'

namespace Mode

/-- Whether a kept control character breaks off a sequence. -/
def isBroken : Mode → Bool
  | plain | escape | escapeMiddle | control => true
  | commandStart | command | title => false

/-- The mode after the letter that follows an escape character. -/
def ofLetter (c : Char) : Mode :=
  if c == '[' then control
  else if c == ']' then title
  else if c == 'P' then commandStart
  else if c == 'X' || c == '^' || c == '_' then command
  else plain

/-- The mode after a character that is neither kept nor general to all modes. -/
def next (m : Mode) (c : Char) : Mode :=
  let n := c.toNat
  if n < 0x20 || n == 0x7F then if m == title && c == '\x07' then plain else m
  else if 0x80 ≤ n then m
  else
    match m with
    | plain => plain
    | escape => if n < 0x30 then escapeMiddle else ofLetter c
    | escapeMiddle => if n < 0x30 then escapeMiddle else plain
    | control => if n < 0x40 then control else plain
    | commandStart => if n < 0x40 then commandStart else command
    | command => command
    | title => title

/-- The mode after a character, and whether the character stays. -/
def step (m : Mode) (c : Char) : Mode × Bool :=
  if isKept c && m.isBroken then (plain, true)
  else if c == '\x1b' then (escape, false)
  else if isCancel c then (plain, false)
  else (m.next c, m == plain && 0x20 ≤ c.toNat && c.toNat != 0x7F)

end Mode

/-- What stays of a text from a mode on. -/
def keep (m : Mode) : List Char → List Char
  | [] => []
  | c :: rest =>
    if (m.step c).2 then c :: keep (m.step c).1 rest else keep (m.step c).1 rest

/-- A text without its control sequences. -/
def strip (cs : List Char) : List Char :=
  keep .plain cs

@[simp] theorem strip_nil : strip [] = [] := rfl

/-- A printable character in front stays. -/
theorem strip_cons {c : Char} (cs : List Char) (h : 0x20 ≤ c.toNat) (hd : c.toNat ≠ 0x7F) :
    strip (c :: cs) = c :: strip cs := by
  have ne {a : Char} (ha : a.toNat < 0x20) : (c == a) = false := by
    rw [beq_eq_false_iff_ne]
    rintro rfl
    omega
  have hk : isKept c = false := by
    unfold isKept
    rw [ne (by decide), ne (by decide), ne (by decide), ne (by decide)]
    rfl
  have hc : isCancel c = false := by
    unfold isCancel
    rw [ne (by decide), ne (by decide)]
    rfl
  have hn : Mode.next .plain c = .plain := by
    unfold Mode.next
    have : ¬ c.toNat < 0x20 := by omega
    simp [this, hd]
  have hs : Mode.step .plain c = (.plain, true) := by
    unfold Mode.step
    rw [hk, ne (a := '\x1b') (by decide), hc, hn]
    simp [h, hd]
  simp [strip, keep, hs]

end ApiForge.Text.Terminal
