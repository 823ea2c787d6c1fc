/-!
Integers as text: an optional sign and digits of some radix, within bounds. The
first fault from the left decides which error is answered: a character that is
no digit, or the digit that leaves the bounds. Consumed by the scalar rules of
YAML, response keys and request parameters.
-/

namespace ApiForge.Numeric

/-- Why a text is no integer within the bounds. -/
inductive IntegerError where
  | empty
  | invalidDigit
  | tooLarge
  | tooSmall
deriving DecidableEq, Repr

/-- The wording of an integer error. -/
def IntegerError.message : IntegerError → String
  | empty => "cannot parse integer from empty string"
  | invalidDigit => "invalid digit found in string"
  | tooLarge => "number too large to fit in target type"
  | tooSmall => "number too small to fit in target type"

/-- The value of a digit in radices up to sixteen. -/
def digitValue? (radix : Nat) (c : Char) : Option Nat :=
  let v :=
    if c.isDigit then c.toNat - '0'.toNat
    else if 'a' ≤ c ∧ c ≤ 'f' then c.toNat - 'a'.toNat + 10
    else if 'A' ≤ c ∧ c ≤ 'F' then c.toNat - 'A'.toNat + 10
    else radix
  if v < radix then some v else none

/-- Reads digits after the value `acc`; the value may not exceed `limit`. -/
def readDigits (radix limit : Nat) (overflow : IntegerError) (acc : Nat) :
    List Char → Except IntegerError Nat
  | [] => .ok acc
  | c :: rest =>
    match digitValue? radix c with
    | none => .error .invalidDigit
    | some d =>
      let next := acc * radix + d
      if limit < next then .error overflow else readDigits radix limit overflow next rest

/-- Reads an integer between `least` and `greatest`. A minus sign is accepted
only if negative values are. -/
def readInteger (radix : Nat) (least greatest : Int) (cs : List Char) :
    Except IntegerError Int :=
  match cs with
  | [] => .error .empty
  | ['+'] => .error .invalidDigit
  | ['-'] => .error .invalidDigit
  | '+' :: digits =>
    (readDigits radix greatest.toNat .tooLarge 0 digits).map Int.ofNat
  | '-' :: digits =>
    if least < 0 then
      (readDigits radix (-least).toNat .tooSmall 0 digits).map fun n => -(n : Int)
    else .error .invalidDigit
  | digits => (readDigits radix greatest.toNat .tooLarge 0 digits).map Int.ofNat

/-- The bounds of a signed word of a given width. -/
def readSigned (width : Nat) (s : String) : Except IntegerError Int :=
  readInteger 10 (-(Nat.pow 2 (width - 1))) (Nat.pow 2 (width - 1) - 1) s.toList

/-- The bounds of an unsigned word of a given width. -/
def readUnsigned (width : Nat) (s : String) : Except IntegerError Int :=
  readInteger 10 0 (Nat.pow 2 width - 1) s.toList

end ApiForge.Numeric
