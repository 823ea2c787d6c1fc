import ApiForge.Numeric.FloatText
import ApiForge.Tree
/-!
Numbers of JSON text. Digits are gathered into one machine word; once a digit
does not fit, the word is final and later digits only move the exponent. A
number without point and exponent whose word held all digits is an integer.
Every other is the word, rounded to a double, times or divided by one power of
ten, itself a rounded double: two roundings, not one, which is why the last
bit may differ from the nearest double.
-/

namespace ApiForge.Json.Number

open Numeric (Binary64 Layout)

-- ===================================================== lexical shape

/-- The parts of a number as written. -/
structure Lexeme where
  negative : Bool
  whole : List Char
  /-- Digits after the point; nothing when there is no point. -/
  fraction : Option (List Char)
  /-- Whether the exponent is negative, and its digits. -/
  exponent : Option (Bool × List Char)

/-- Cuts the exponent off what follows the digits. -/
def readExponent : List Char → Option (Option (Bool × List Char))
  | [] => some none
  | c :: rest =>
    if c == 'e' || c == 'E' then
      let (negative, digits) :=
        match rest with
        | '+' :: ds => (false, ds)
        | '-' :: ds => (true, ds)
        | ds => (false, ds)
      if digits.isEmpty || !digits.all Char.isDigit then none
      else some (some (negative, digits))
    else none

/-- The parts of a well-formed number: no leading zero, and digits on both
sides of a point. -/
def lexeme? (cs : List Char) : Option Lexeme := do
  let (negative, body) := match cs with
    | '-' :: rest => (true, rest)
    | rest => (false, rest)
  let whole := body.takeWhile Char.isDigit
  let after := body.dropWhile Char.isDigit
  guard (!whole.isEmpty && (whole.length == 1 || whole.head? != some '0'))
  match after with
  | '.' :: more =>
    let fraction := more.takeWhile Char.isDigit
    guard (!fraction.isEmpty)
    let exponent ← readExponent (more.dropWhile Char.isDigit)
    return ⟨negative, whole, some fraction, exponent⟩
  | other =>
    let exponent ← readExponent other
    return ⟨negative, whole, none, exponent⟩

-- =========================================================== value

/-- One more than the greatest value of the word that gathers digits. -/
def wordLimit : Nat := Nat.pow 2 64

/-- The value of a digit. -/
def digit (c : Char) : Nat := c.toNat - '0'.toNat

/-- Gathers digits while the word holds them. Answers the word and how many
digits were left over. -/
def gather (word : Nat) : List Char → Nat × Nat
  | [] => (word, 0)
  | c :: rest =>
    let next := word * 10 + digit c
    if next < wordLimit then gather next rest else (word, rest.length + 1)

/-- The exponent's own digits, unless they pass the greatest 32-bit integer. -/
def exponentOf? (digits : List Char) : Option Nat :=
  let n := Numeric.ofDigits 0 digits
  if n < Nat.pow 2 31 then some n else none

/-- The pattern of the double nearest to `10 ^ k`. -/
def powerOfTen (k : Nat) : Nat := Layout.double.round (Nat.pow 10 k) 1

/-- The pattern of a product of two doubles. -/
def multiply (x y : Nat) : Nat :=
  let (a, b) := Layout.double.ratio x
  let (c, d) := Layout.double.ratio y
  Layout.double.round (a * c) (b * d)

/-- The pattern of a quotient of two doubles. -/
def divide (x y : Nat) : Nat :=
  let (a, b) := Layout.double.ratio x
  let (c, d) := Layout.double.ratio y
  Layout.double.round (a * d) (b * c)

/-- Divides by `10 ^ k`, by the greatest stored power as long as `k` passes it.
A double is zero after a few such steps, so the steps are counted down. -/
def shrink (x k : Nat) : Nat → Nat
  | 0 => 0
  | steps + 1 =>
    if k ≤ 308 then divide x (powerOfTen k)
    else if x = 0 then 0
    else shrink (divide x (powerOfTen 308)) (k - 308) steps

/-- The pattern of `word * 10 ^ exponent`; nothing when it is too large. -/
def scale? (word : Nat) (exponent : Int) : Option Nat :=
  let x := Layout.double.round word 1
  if 0 ≤ exponent then
    if exponent ≤ 308 then
      let y := multiply x (powerOfTen exponent.toNat)
      if y < Layout.double.infinity then some y else none
    else if x = 0 then some 0
    else none
  else some (shrink x (-exponent).toNat 5)

/-- The value of a number; nothing when it is too large for a double. -/
def value? (l : Lexeme) : Option Tree := do
  let (word, dropped) := gather 0 l.whole
  let sign (pattern : Nat) : Tree := .float (Binary64.ofPattern l.negative pattern)
  match l.fraction, l.exponent with
  | none, none =>
    if dropped = 0 then
      if !l.negative then some (.int word)
      else if word = 0 || Nat.pow 2 63 < word then some (sign (Layout.double.round word 1))
      else some (.int (-(word : Int)))
    else (scale? word dropped).map sign
  | fraction, exponent =>
    let digits := fraction.getD []
    let (significand, ignored) := gather word digits
    let start : Int := (dropped : Int) - (digits.length - ignored : Nat)
    match exponent with
    | none => (scale? significand start).map sign
    | some (negative, ds) =>
      match exponentOf? ds with
      | some e => (scale? significand (if negative then start - e else start + e)).map sign
      | none => if significand ≠ 0 && !negative then none else some (sign 0)

/-- The value of a number's text: nothing when the text is no number, and an
unreadable leaf when no double is large enough. -/
def read? (cs : List Char) : Option Tree :=
  (lexeme? cs).map fun l => (value? l).getD .unreadable

end ApiForge.Json.Number
