/-!
UTF-8 between characters and octets. `decode?` accepts well-formed input only;
`decodeLossy` reads anything and writes the replacement character once for
each longest ill-formed stretch that begins a character. Consumed by the
document readers (strict) and by percent decoding (lossy).
-/

namespace ApiForge.Text.Utf8

-- ========================================================= encoding

/-- The octets of a list of characters. -/
def encode (cs : List Char) : List UInt8 :=
  cs.flatMap String.utf8EncodeChar

/-- The octets of a text. -/
def bytes (s : String) : List UInt8 :=
  s.toUTF8.toList

/-- The number of octets of a text. -/
def size (s : String) : Nat :=
  s.utf8ByteSize

-- ======================================================= one character

/-- Whether an octet continues a character. -/
def isTail (b : UInt8) : Bool :=
  0x80 ≤ b && b ≤ 0xBF

/-- The low six bits of a continuation octet. -/
def tailBits (b : UInt8) : Nat :=
  b.toNat % 0x40

/-- The range that the second octet must lie in after the first octet of a
character of three or four octets: it shuts out overlong forms, surrogates
and numbers past the last character. -/
def secondInRange (first second : UInt8) : Bool :=
  isTail second
    && !(first == 0xE0 && second < 0xA0)
    && !(first == 0xED && second > 0x9F)
    && !(first == 0xF0 && second < 0x90)
    && !(first == 0xF4 && second > 0x8F)

/-- Reads the character that starts with octet `b`. Answers the character, or
nothing if the octets there are ill formed, and how many of the following
octets belong to it (or to the ill-formed stretch). -/
def read (b : UInt8) (rest : List UInt8) : Option Char × Nat :=
  if b < 0x80 then (some (Char.ofNat b.toNat), 0)
  else if 0xC2 ≤ b && b ≤ 0xDF then
    match rest with
    | c :: _ =>
      if isTail c then (some (Char.ofNat (b.toNat % 0x20 * 0x40 + tailBits c)), 1)
      else (none, 0)
    | [] => (none, 0)
  else if 0xE0 ≤ b && b ≤ 0xEF then
    match rest with
    | c :: more =>
      if secondInRange b c then
        match more with
        | d :: _ =>
          if isTail d then
            (some (Char.ofNat ((b.toNat % 0x10 * 0x40 + tailBits c) * 0x40 + tailBits d)), 2)
          else (none, 1)
        | [] => (none, 1)
      else (none, 0)
    | [] => (none, 0)
  else if 0xF0 ≤ b && b ≤ 0xF4 then
    match rest with
    | c :: more =>
      if secondInRange b c then
        match more with
        | d :: more' =>
          if isTail d then
            match more' with
            | e :: _ =>
              if isTail e then
                (some (Char.ofNat
                  (((b.toNat % 0x8 * 0x40 + tailBits c) * 0x40 + tailBits d) * 0x40
                    + tailBits e)), 3)
              else (none, 2)
            | [] => (none, 2)
          else (none, 1)
        | [] => (none, 1)
      else (none, 0)
    | [] => (none, 0)
  else (none, 0)

-- ========================================================= decoding

/-- The characters of well-formed input, nothing for any other. -/
def decode? : List UInt8 → Option (List Char)
  | [] => some []
  | b :: rest =>
    match read b rest with
    | (some c, k) => (decode? (rest.drop k)).map (c :: ·)
    | (none, _) => none
termination_by bs => bs.length
decreasing_by simp only [List.length_cons, List.length_drop]; omega

/-- The character written in place of an ill-formed stretch. -/
def replacement : Char := '\uFFFD'

/-- The characters of any input, with `replacement` for each ill-formed
stretch. -/
def decodeLossy : List UInt8 → List Char
  | [] => []
  | b :: rest =>
    match read b rest with
    | (found, k) => found.getD replacement :: decodeLossy (rest.drop k)
termination_by bs => bs.length
decreasing_by simp only [List.length_cons, List.length_drop]; omega

end ApiForge.Text.Utf8
