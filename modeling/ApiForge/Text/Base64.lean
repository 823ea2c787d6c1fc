/-!
The base 64 form of octets: six bits a character, four characters for three
octets, and padding to a multiple of four. `decode?` accepts what `encode`
writes and nothing else: padding must be there, and the bits that padding cuts
off must be zero. Consumed by the credentials of the basic scheme.
-/

namespace ApiForge.Text.Base64

/-- The sixty-four characters in the order of their values. -/
def alphabet : List Char :=
  "ABCDEFGHIJKLMNOPQRSTUVWXYZabcdefghijklmnopqrstuvwxyz0123456789+/".toList

/-- The character of a value below sixty-four. -/
def symbol (n : Nat) : Char := alphabet.getD n '='

/-- The value of a character. -/
def value? (c : Char) : Option Nat := alphabet.idxOf? c

/-- The characters of octets. -/
def encode : List UInt8 → List Char
  | a :: b :: c :: rest =>
    let n := (a.toNat * 0x100 + b.toNat) * 0x100 + c.toNat
    symbol (n / 0x40000) :: symbol (n / 0x1000 % 0x40) :: symbol (n / 0x40 % 0x40)
      :: symbol (n % 0x40) :: encode rest
  | [a, b] =>
    let n := (a.toNat * 0x100 + b.toNat) * 4
    [symbol (n / 0x1000), symbol (n / 0x40 % 0x40), symbol (n % 0x40), '=']
  | [a] =>
    let n := a.toNat * 16
    [symbol (n / 0x40), symbol (n % 0x40), '=', '=']
  | [] => []

/-- The octets of four characters, the last of them padding. -/
def decodeLast? (a b c d : Char) : Option (List UInt8) := do
  let x ← value? a
  let y ← value? b
  if c == '=' && d == '=' then
    guard (y % 16 = 0)
    return [UInt8.ofNat (x * 4 + y / 16)]
  else
    let z ← value? c
    guard (d == '=' && z % 4 = 0)
    let n := (x * 0x40 + y) * 16 + z / 4
    return [UInt8.ofNat (n / 0x100), UInt8.ofNat (n % 0x100)]

/-- The octets of four characters without padding. -/
def decodeFour? (a b c d : Char) : Option (List UInt8) := do
  let x ← value? a
  let y ← value? b
  let z ← value? c
  let w ← value? d
  let n := ((x * 0x40 + y) * 0x40 + z) * 0x40 + w
  return [UInt8.ofNat (n / 0x10000), UInt8.ofNat (n / 0x100 % 0x100), UInt8.ofNat (n % 0x100)]

/-- The octets that characters stand for. -/
def decode? : List Char → Option (List UInt8)
  | [] => some []
  | a :: b :: c :: d :: rest =>
    if rest.isEmpty && d == '=' then decodeLast? a b c d
    else do
      let octets ← decodeFour? a b c d
      return octets ++ (← decode? rest)
  | _ => none

end ApiForge.Text.Base64
