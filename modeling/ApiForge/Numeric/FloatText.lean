import ApiForge.Numeric.Binary
/-!
Floating-point numbers as text: a sign, then the word for infinity or for the
undefined value, or decimal digits with an optional point and exponent. A
number is rounded once, to the nearest pattern of the layout asked for.
Consumed by the scalar rules of YAML and by request parameters.
-/

namespace ApiForge.Numeric

/-- Why a text is no floating-point number. -/
inductive FloatError where
  | empty
  | invalid
deriving DecidableEq, Repr

/-- The wording of a floating-point error. -/
def FloatError.message : FloatError → String
  | empty => "cannot parse float from empty string"
  | invalid => "invalid float literal"

/-- A decimal as written: `digits * 10 ^ exponent`. -/
structure Decimal where
  digits : Nat
  exponent : Int
deriving DecidableEq, Repr

/-- The natural that a list of decimal digits denotes, after `acc`. -/
def ofDigits (acc : Nat) (cs : List Char) : Nat :=
  cs.foldl (fun n c => 10 * n + (c.toNat - '0'.toNat)) acc

/-- Reads an exponent: an optional sign and at least one digit. -/
def readExponent (cs : List Char) : Option Int :=
  let magnitude (ds : List Char) : Option Nat :=
    if ds.isEmpty || !ds.all Char.isDigit then none else some (ofDigits 0 ds)
  match cs with
  | '+' :: ds => (magnitude ds).map Int.ofNat
  | '-' :: ds => (magnitude ds).map fun n => -(n : Int)
  | ds => (magnitude ds).map Int.ofNat

/-- Reads an unsigned decimal: digits with an optional point, at least one of
them, and an optional exponent. -/
def readDecimal (cs : List Char) : Option Decimal := do
  let whole := cs.takeWhile Char.isDigit
  let afterWhole := cs.dropWhile Char.isDigit
  let (fraction, tail) :=
    match afterWhole with
    | '.' :: more => (more.takeWhile Char.isDigit, more.dropWhile Char.isDigit)
    | other => ([], other)
  guard (!whole.isEmpty || !fraction.isEmpty)
  let shift ←
    match tail with
    | [] => some 0
    | c :: more => if c == 'e' || c == 'E' then readExponent more else none
  return ⟨ofDigits (ofDigits 0 whole) fraction, shift - fraction.length⟩

/-- Reads a number without its sign as a pattern of a layout. -/
def readMagnitude (f : Layout) (cs : List Char) : Option Nat :=
  let word := String.ofList (cs.map Char.toLower)
  if word == "inf" || word == "infinity" then some f.infinity
  else if word == "nan" then some f.notANumber
  else (readDecimal cs).map fun d => f.ofDecimal d.digits d.exponent

/-- Reads a floating-point number as its sign and its pattern. -/
def readFloat (f : Layout) (s : String) : Except FloatError (Bool × Nat) :=
  let signed (negative : Bool) (cs : List Char) : Except FloatError (Bool × Nat) :=
    match readMagnitude f cs with
    | some p => .ok (negative, p)
    | none => .error .invalid
  match s.toList with
  | [] => .error .empty
  | '-' :: cs => signed true cs
  | '+' :: cs => signed false cs
  | cs => signed false cs

end ApiForge.Numeric
