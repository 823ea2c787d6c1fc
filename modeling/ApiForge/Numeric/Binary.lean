/-!
Binary floating-point numbers as bit patterns, rounded from exact quotients.
A `Layout` says how many bits the significand has and how wide the exponent is;
`Layout.round` finds the pattern nearest to a quotient of naturals, a tie going
to the even one. Reading decimals and the arithmetic that JSON numbers need are
built on it, so nothing depends on the machine's own arithmetic.
-/

namespace ApiForge.Numeric

-- ========================================================== layouts

/-- The shape of an interchange format: `precision` significand bits with the
leading one, and `exponentBits` bits of exponent. -/
structure Layout where
  precision : Nat
  exponentBits : Nat
deriving DecidableEq, Repr

namespace Layout

/-- Double precision. -/
def double : Layout := ⟨53, 11⟩

/-- Single precision. -/
def single : Layout := ⟨24, 8⟩

variable (f : Layout)

/-- The weight of the last bit of the smallest numbers, as a power of two. -/
def leastExponent : Int :=
  3 - Nat.pow 2 (f.exponentBits - 1) - f.precision

/-- The pattern of infinity, without the sign. -/
def infinity : Nat :=
  (Nat.pow 2 f.exponentBits - 1) * Nat.pow 2 (f.precision - 1)

/-- The pattern of the value that is not a number, without the sign. -/
def notANumber : Nat :=
  f.infinity + Nat.pow 2 (f.precision - 2)

/-- The weight of the sign bit. -/
def signBit : Nat :=
  Nat.pow 2 (f.exponentBits + f.precision - 1)

/-- A pattern with the sign bit set if `negative`. -/
def withSign (negative : Bool) (pattern : Nat) : Nat :=
  if negative then f.signBit + pattern else pattern

-- ========================================================= rounding

/-- The natural nearest to `num / den`, the even one of two. -/
def roundHalfEven (num den : Nat) : Nat :=
  let q := num / den
  let r := num % den
  if 2 * r < den then q
  else if den < 2 * r then q + 1
  else if q % 2 = 0 then q
  else q + 1

/-- The numerator and denominator of `num / den` divided by `2 ^ e`. -/
def scaleDown (num den : Nat) (e : Int) : Nat × Nat :=
  if 0 ≤ e then (num, den * Nat.pow 2 e.toNat) else (num * Nat.pow 2 (-e).toNat, den)

/-- The exponent at which `num / den` has exactly `precision` bits before the
point, or the least exponent if that is greater. -/
def exponentOf (num den : Nat) : Int :=
  let guess : Int := (Nat.log2 num : Int) - Nat.log2 den - f.precision + 1
  let (n, d) := scaleDown num den guess
  let exact := if n < d * Nat.pow 2 (f.precision - 1) then guess - 1 else guess
  max exact f.leastExponent

/-- The pattern of the number nearest to `num / den`; too large a quotient gives
infinity. -/
def round (num den : Nat) : Nat :=
  if num = 0 then 0
  else
    let e := f.exponentOf num den
    let (n, d) := scaleDown num den e
    let pattern := (e - f.leastExponent).toNat * Nat.pow 2 (f.precision - 1) + roundHalfEven n d
    min pattern f.infinity

/-- The pattern nearest to `digits * 10 ^ exponent`. Exponents far outside the
range of the format are answered without computing the power. -/
def ofDecimal (digits : Nat) (exponent : Int) : Nat :=
  if digits = 0 then 0
  else
    let magnitude : Int := (Nat.toDigits 10 digits).length + exponent
    if 400 < magnitude then f.infinity
    else if magnitude < -400 then 0
    else if 0 ≤ exponent then f.round (digits * Nat.pow 10 exponent.toNat) 1
    else f.round digits (Nat.pow 10 (-exponent).toNat)

/-- The value of a finite unsigned pattern, as a significand and a power of two. -/
def value (pattern : Nat) : Nat × Int :=
  let unit := Nat.pow 2 (f.precision - 1)
  let biased := pattern / unit
  if biased = 0 then (pattern, f.leastExponent)
  else (pattern % unit + unit, f.leastExponent + biased - 1)

/-- The value of a finite unsigned pattern, as a numerator and a denominator. -/
def ratio (pattern : Nat) : Nat × Nat :=
  let (m, e) := f.value pattern
  if 0 ≤ e then (m * Nat.pow 2 e.toNat, 1) else (m, Nat.pow 2 (-e).toNat)

end Layout

-- ================================================== double precision

/-- A number in double precision, by its bits. -/
structure Binary64 where
  bits : UInt64
deriving DecidableEq, Repr, Inhabited

namespace Binary64

/-- The number with a given sign and unsigned pattern. -/
def ofPattern (negative : Bool) (pattern : Nat) : Binary64 :=
  ⟨UInt64.ofNat (Layout.double.withSign negative pattern)⟩

/-- Whether the sign bit is set. -/
def negative (x : Binary64) : Bool :=
  Layout.double.signBit ≤ x.bits.toNat

/-- The bits below the sign. -/
def pattern (x : Binary64) : Nat :=
  x.bits.toNat % Layout.double.signBit

/-- Whether the number is neither infinite nor undefined. -/
def isFinite (x : Binary64) : Bool :=
  x.pattern < Layout.double.infinity

/-- The double nearest to a decimal. -/
def ofDecimal (negative : Bool) (digits : Nat) (exponent : Int) : Binary64 :=
  ofPattern negative (Layout.double.ofDecimal digits exponent)

end Binary64

/-- A number in single precision, by its bits. -/
structure Binary32 where
  bits : UInt32
deriving DecidableEq, Repr, Inhabited

/-- The single with a given sign and unsigned pattern. -/
def Binary32.ofPattern (negative : Bool) (pattern : Nat) : Binary32 :=
  ⟨UInt32.ofNat (Layout.single.withSign negative pattern)⟩

end ApiForge.Numeric
