import ApiForge.Numeric.Binary
/-!
The shortest decimal of a double: the fewest significant digits that read back
as the same number, the nearer of two candidates. For each count of digits the
two neighbours of the value on that decimal grid are tried, in exact
arithmetic. Consumed by the error messages of the document decoder.
-/

namespace ApiForge.Numeric

/-- A decimal by its digits and the place of its point, counted from before the
first digit. -/
structure Digits where
  digits : Nat
  point : Int
deriving DecidableEq, Repr

namespace Shortest

/-- The `k` for which `num / den` lies between `10 ^ (k-1)`, included, and
`10 ^ k`. -/
def decimalPoint (num den : Nat) : Int :=
  let guess : Int :=
    (Nat.toDigits 10 num).length - (Nat.toDigits 10 den).length
  let below :=
    if 0 ≤ guess then num < den * Nat.pow 10 guess.toNat
    else num * Nat.pow 10 (-guess).toNat < den
  if below then guess else guess + 1

/-- The grid neighbours of `num / den` with `n` significant digits, nearer one
first. -/
def neighbours (num den : Nat) (point : Int) (n : Nat) : List Nat :=
  let scale := (n : Int) - point
  let (a, b) := if 0 ≤ scale then (num * Nat.pow 10 scale.toNat, den)
    else (num, den * Nat.pow 10 (-scale).toNat)
  let low := a / b
  if 2 * (a % b) ≤ b then [low, low + 1] else [low + 1, low]

/-- The first candidate with `n` or more digits that reads back as `pattern`;
`more` bounds how many further counts are tried. A candidate rounded up to a
power of ten has one digit more, which moves the point. -/
def search (pattern num den : Nat) (point : Int) (n : Nat) : Nat → Digits
  | 0 => ⟨0, point⟩
  | more + 1 =>
    match (neighbours num den point n).find? fun d =>
        Layout.double.ofDecimal d (point - n) == pattern with
    | some d => ⟨d, point + ((Nat.toDigits 10 d).length - n)⟩
    | none => search pattern num den point (n + 1) more

/-- The shortest decimal of a finite unsigned pattern other than zero.
Seventeen digits always suffice. -/
def ofPattern (pattern : Nat) : Digits :=
  let (num, den) := Layout.double.ratio pattern
  search pattern num den (decimalPoint num den) 1 17

end Shortest

/-- Digits without the trailing zeros. -/
def dropTrailingZeros (cs : List Char) : List Char :=
  (cs.reverse.dropWhile (· == '0')).reverse

/-- The text of a finite double: positional with a point while the decimal
point stands between five places before the first digit and sixteen after it,
in scientific form otherwise, with a signed exponent. -/
def Binary64.text (x : Binary64) : String :=
  let sign := if x.negative then ['-'] else []
  let body : List Char :=
    if x.pattern = 0 then ['0', '.', '0']
    else
      let d := Shortest.ofPattern x.pattern
      let cs := dropTrailingZeros (Nat.toDigits 10 d.digits)
      let k := d.point
      if 0 < k && k ≤ 16 then
        if (cs.length : Int) ≤ k then
          cs ++ List.replicate (k.toNat - cs.length) '0' ++ ['.', '0']
        else cs.take k.toNat ++ '.' :: cs.drop k.toNat
      else if -5 < k && k ≤ 0 then
        ['0', '.'] ++ List.replicate (-k).toNat '0' ++ cs
      else
        let exponent := (if 1 ≤ k then ['+'] else []) ++ (toString (k - 1)).toList
        match cs with
        | [c] => c :: 'e' :: exponent
        | c :: rest => c :: '.' :: (rest ++ 'e' :: exponent)
        | [] => []
  String.ofList (sign ++ body)

end ApiForge.Numeric
