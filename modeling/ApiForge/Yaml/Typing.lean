import ApiForge.Numeric.FloatText
import ApiForge.Numeric.IntegerText
import ApiForge.Tree
import ApiForge.Yaml.Node
/-!
The types of YAML scalars. A plain scalar is null, a truth value, an integer, a
floating-point number or else a string, by its spelling; a tag of the standard
schema asks for one of these. An integer is decimal, hexadecimal, octal or binary
and must fit a machine word; digits behind a leading zero are a string.
-/

namespace ApiForge.Yaml

open Numeric (Binary64 Layout readInteger readFloat)

-- ========================================================== spellings

/-- Whether a text spells null. -/
def isNullWord (s : String) : Bool :=
  s == "~" || s == "null" || s == "Null" || s == "NULL"

/-- The truth value that a text spells. -/
def boolOf? (s : String) : Option Bool :=
  if s == "true" || s == "True" || s == "TRUE" then some true
  else if s == "false" || s == "False" || s == "FALSE" then some false
  else none

/-- Whether a list of characters starts with a sign. -/
def startsWithSign : List Char → Bool
  | c :: _ => c == '+' || c == '-'
  | [] => false

/-- Whether a text is digits behind a leading zero, a sign aside. -/
def isPaddedNumber (cs : List Char) : Bool :=
  let body := if startsWithSign cs then cs.tail else cs
  match body with
  | '0' :: rest => !rest.isEmpty && rest.all Char.isDigit
  | _ => false

/-- The radix that a text's first two characters announce, and what follows them. -/
def radixOf? : List Char → Option (Nat × List Char)
  | '0' :: 'x' :: rest => some (16, rest)
  | '0' :: 'o' :: rest => some (8, rest)
  | '0' :: 'b' :: rest => some (2, rest)
  | _ => none

/-- Reads an integer without a minus sign. -/
def naturalOf? (greatest : Int) (cs : List Char) : Option Int :=
  let body := match cs with
    | '+' :: rest => rest
    | cs => cs
  let announced : Option Int :=
    match radixOf? body with
    | some (radix, rest) =>
      if startsWithSign rest then none
      else (readInteger radix 0 greatest rest).toOption
    | none => none
  match announced with
  | some n => some n
  | none =>
    if startsWithSign body || isPaddedNumber cs then none
    else (readInteger 10 0 greatest body).toOption

/-- Reads an integer with a minus sign. -/
def negativeOf? (least greatest : Int) (cs : List Char) : Option Int :=
  let announced : Option Int :=
    match cs with
    | '-' :: body =>
      match radixOf? body with
      | some (radix, rest) => (readInteger radix least greatest ('-' :: rest)).toOption
      | none => none
    | _ => none
  match announced with
  | some n => some n
  | none =>
    if isPaddedNumber cs then none
    else (readInteger 10 least greatest cs).toOption

/-- Reads an integer. One that needs more than a machine word, but not more than
two, is unreadable. -/
def integerOf? (cs : List Char) : Option Tree :=
  let word : Option Int :=
    (naturalOf? (Nat.pow 2 64 - 1) cs).or (negativeOf? (-(Nat.pow 2 63)) (Nat.pow 2 63 - 1) cs)
  let double : Option Int :=
    (naturalOf? (Nat.pow 2 128 - 1) cs).or (negativeOf? (-(Nat.pow 2 127)) (Nat.pow 2 127 - 1) cs)
  match word, double with
  | some n, _ => some (if n = 0 && cs.head? == some '-' then .minusZero else .int n)
  | none, some _ => some .unreadable
  | none, none => none

/-- Reads a floating-point number: a finite decimal, or one of the words with a
leading point. -/
def floatOf? (s : String) : Option Binary64 :=
  let cs := s.toList
  let body := match cs with
    | '+' :: rest => rest
    | cs => cs
  let word := String.ofList body
  if cs.head? == some '+' && startsWithSign body then none
  else if word == ".inf" || word == ".Inf" || word == ".INF" then
    some (Binary64.ofPattern false Layout.double.infinity)
  else if s == "-.inf" || s == "-.Inf" || s == "-.INF" then
    some (Binary64.ofPattern true Layout.double.infinity)
  else if s == ".nan" || s == ".NaN" || s == ".NAN" then
    some (Binary64.ofPattern false Layout.double.notANumber)
  else
    match readFloat Layout.double word with
    | .ok (negative, pattern) =>
      if pattern < Layout.double.infinity then some (Binary64.ofPattern negative pattern)
      else none
    | .error _ => none

-- ============================================================= typing

/-- The value of a plain scalar without a tag. -/
def typed (s : String) : Tree :=
  if s.isEmpty || isNullWord s then .null
  else
    match boolOf? s with
    | some b => .bool b
    | none =>
      match integerOf? s.toList with
      | some t => t
      | none =>
        if isPaddedNumber s.toList then .str s
        else
          match floatOf? s with
          | some x => .float x
          | none => .str s

/-- The value of a scalar where any value may stand. -/
def typedScalar (tag : Option Tag) (text : String) (style : ScalarStyle) : Tree :=
  match tag with
  | none => if style == .plain then typed text else .str text
  | some tag =>
    if tag.isLocal then .unreadable
    else if tag == .standard "bool" then ((boolOf? text).map Tree.bool).getD .unreadable
    else if tag == .standard "int" then (integerOf? text.toList).getD .unreadable
    else if tag == .standard "float" then ((floatOf? text).map Tree.float).getD .unreadable
    else if tag == .standard "null" then
      if isNullWord text then .null else .unreadable
    else if tag.isMarked && style == .plain then typed text
    else .str text

end ApiForge.Yaml
