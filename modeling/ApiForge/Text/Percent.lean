import ApiForge.Numeric.IntegerText
import ApiForge.Text.Utf8
/-!
Percent escapes. Two hexadecimal digits after a percent sign stand for the
octet of that value; a percent sign that is not followed by two of them stands
for itself. The octets are then read as UTF-8, leniently. Consumed by path
captures (a plus is a plus) and query values (a plus is a space).
-/

namespace ApiForge.Text.Percent

/-- The value of an octet that is a hexadecimal digit. -/
def hexValue? (b : UInt8) : Option Nat :=
  Numeric.digitValue? 16 (Char.ofNat b.toNat)

/-- The octet that an escape with these two digits stands for. -/
def escaped? (high low : UInt8) : Option UInt8 :=
  match hexValue? high, hexValue? low with
  | some h, some l => some (UInt8.ofNat (h * 16 + l))
  | _, _ => none

/-- What an octet that begins no escape stands for. -/
def plain (plusIsSpace : Bool) (b : UInt8) : UInt8 :=
  if plusIsSpace && b == 0x2B then 0x20 else b

/-- The octets that a written text stands for. -/
def decodeOctets (plusIsSpace : Bool) : List UInt8 → List UInt8
  | b :: high :: low :: rest =>
    match if b == 0x25 then escaped? high low else none with
    | some octet => octet :: decodeOctets plusIsSpace rest
    | none => plain plusIsSpace b :: decodeOctets plusIsSpace (high :: low :: rest)
  | b :: rest => plain plusIsSpace b :: decodeOctets plusIsSpace rest
  | [] => []
termination_by bs => bs.length

/-- The text that a written text stands for. -/
def decode (plusIsSpace : Bool) (s : String) : String :=
  String.ofList (Utf8.decodeLossy (decodeOctets plusIsSpace (Utf8.bytes s)))

end ApiForge.Text.Percent
