import ApiForge.Yaml.Cell
/-!
The tags of YAML nodes. A tag is kept by its octets, because escapes may write
octets that are no characters: only their leading bits are looked at. The first NUL
octet ends a tag. A tag that begins with an exclamation mark is local to the
document, unless the rest of it is no text. Consumed by `ApiForge.Yaml.Token` and
`ApiForge.Yaml.Typing`.
-/

namespace ApiForge.Yaml

/-- A tag. -/
structure Tag where
  octets : List UInt8
deriving DecidableEq, Repr, Inhabited

namespace Tag

/-- The tag that a text spells. -/
def ofText (s : String) : Tag :=
  ⟨Text.Utf8.bytes s⟩

/-- A tag that begins like one and goes on like another. -/
def append (a b : Tag) : Tag :=
  ⟨a.octets ++ b.octets⟩

/-- A tag of the standard schema. -/
def standard (name : String) : Tag :=
  ofText ("tag:yaml.org,2002:" ++ name)

/-- The tag that is a lone exclamation mark. -/
def mark : Tag := ofText "!"

/-- Whether a tag begins with an exclamation mark. -/
def isMarked (t : Tag) : Bool :=
  t.octets.head? == some 0x21

/-- Whether a tag is local to the document. -/
def isLocal (t : Tag) : Bool :=
  t.isMarked && (Text.Utf8.decode? t.octets.tail).isSome

-- ============================================================ escapes

/-- How many octets a character has, by the leading bits of its first. -/
def width? (n : Nat) : Option Nat :=
  if n < 0x80 then some 1
  else if 0xC0 ≤ n && n < 0xE0 then some 2
  else if 0xE0 ≤ n && n < 0xF0 then some 3
  else if 0xF0 ≤ n && n < 0xF8 then some 4
  else none

/-- The octets of tag characters, with their escapes undone; `due` escaped octets of
a character are still to come. -/
def unescape (hexValue? : Char → Option Nat) (due : Nat) : List Char → Option (List UInt8)
  | [] => if due = 0 then some [] else none
  | '%' :: a :: b :: rest =>
    match hexValue? a, hexValue? b with
    | some x, some y =>
      let n := 16 * x + y
      if due = 0 then
        match width? n with
        | some w => (unescape hexValue? (w - 1) rest).map (UInt8.ofNat n :: ·)
        | none => none
      else if 0x80 ≤ n && n < 0xC0 then
        (unescape hexValue? (due - 1) rest).map (UInt8.ofNat n :: ·)
      else none
    | _, _ => none
  | '%' :: _ => none
  | c :: rest =>
    if due = 0 then (unescape hexValue? 0 rest).map (Text.Utf8.encode [c] ++ ·) else none

/-- The tag that octets spell: those in front of the first NUL. -/
def ofOctets (octets : List UInt8) : Tag :=
  ⟨octets.takeWhile (· != 0)⟩

end Tag

end ApiForge.Yaml
