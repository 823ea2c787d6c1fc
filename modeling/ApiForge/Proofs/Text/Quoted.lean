import ApiForge.Text.Quoted
import Mathlib.Data.Nat.Init
/-!
Quoted text is read back.

`read?` takes a quoted text off the front of a list of characters, undoing the
escapes. Whatever follows a quoted text, it reads the text that was quoted
(`read?_encode`), so different texts differ in their quoted forms
(`encode_injective`).
-/

namespace ApiForge.Text.Quoted

-- ================================================================= reading

/-- What a reader between quotes expects. -/
inductive Mode where
  | shown
  /-- The rest of an escape, behind its backslash. -/
  | escape
  /-- More digits of a code point, or its closing bracket. -/
  | code (read : Nat)

/-- The character that a short escape stands for. -/
def unescape? : Char → Option Char
  | '0' => some '\x00'
  | 't' => some '\t'
  | 'r' => some '\r'
  | 'n' => some '\n'
  | '"' => some '"'
  | '\\' => some '\\'
  | _ => none

/-- The value of a hexadecimal digit. -/
def digit? (c : Char) : Option Nat :=
  (List.range 16).find? fun d => Nat.digitChar d == c

/-- Puts a character in front of what has been read. -/
def push (c : Char) (read : Option (List Char × List Char)) :
    Option (List Char × List Char) :=
  read.map fun (cs, rest) => (c :: cs, rest)

/-- Reads up to the closing quote: the characters before it, and what is behind
it. -/
def readFrom : Mode → List Char → Option (List Char × List Char)
  | _, [] => none
  | .shown, '"' :: rest => some ([], rest)
  | .shown, '\\' :: rest => readFrom .escape rest
  | .shown, c :: rest => push c (readFrom .shown rest)
  | .escape, 'u' :: '\x7b' :: rest => readFrom (.code 0) rest
  | .escape, c :: rest =>
    (unescape? c).bind fun c => push c (readFrom .shown rest)
  | .code n, '\x7d' :: rest => push (Char.ofNat n) (readFrom .shown rest)
  | .code n, c :: rest =>
    (digit? c).bind fun d => readFrom (.code (16 * n + d)) rest

/-- Takes a quoted text off the front. -/
def read? : List Char → Option (String × List Char)
  | '"' :: rest =>
    (readFrom .shown rest).map fun (cs, rest) => (String.ofList cs, rest)
  | _ => none

-- =================================================================== digits

theorem digit?_digitChar {d : Nat} (hd : d < 16) :
    digit? d.digitChar = some d := by
  have hall : ∀ d < 16, digit? d.digitChar = some d := by decide
  exact hall d hd

/-- A digit is not the bracket that closes a code point. -/
theorem readFrom_digit {d : Nat} (hd : d < 16) (n : Nat) (rest : List Char) :
    readFrom (.code n) (d.digitChar :: rest)
      = readFrom (.code (16 * n + d)) rest := by
  have hne : d.digitChar ≠ '\x7d' := Nat.digitChar_ne _ (by decide)
  rw [readFrom, digit?_digitChar hd, Option.bind_some]
  exact hne

/-- The digits of a code point are read from the first, so the induction is on
the number without its last digit. -/
theorem readFrom_toDigits (n : Nat) (rest : List Char) :
    readFrom (.code 0) (Nat.toDigits 16 n ++ rest)
      = readFrom (.code n) rest := by
  induction n using Nat.strong_induction_on generalizing rest with | h n ih => ?_
  rw [Nat.toDigits_eq_if (by decide)]
  by_cases hn : n < 16
  · rw [if_pos hn, List.singleton_append, readFrom_digit hn, Nat.mul_zero,
      Nat.zero_add]
  · have hlast : n % 16 < 16 := Nat.mod_lt _ (by decide)
    rw [if_neg hn, List.append_assoc, ih (n / 16) (by omega),
      List.singleton_append, readFrom_digit hlast, Nat.div_add_mod]

-- =============================================================== characters

/-- What a character is written as in quotes is read as the character. -/
theorem readFrom_encodeChar (c : Char) (rest : List Char) :
    readFrom .shown (encodeChar c ++ rest)
      = push c (readFrom .shown rest) := by
  unfold encodeChar
  split
  case h_7 =>
    rename_i hquote hslash
    split
    · rw [List.singleton_append, readFrom]
      · exact hquote
      · exact hslash
    · rw [codePoint]
      simp only [List.cons_append, List.append_assoc, List.nil_append]
      rw [readFrom, readFrom, readFrom_toDigits, readFrom, Char.ofNat_toNat]
  all_goals rfl

/-- What is written in quotes is read up to the closing quote. -/
theorem readFrom_encodeChars (cs rest : List Char) :
    readFrom .shown (cs.flatMap encodeChar ++ '"' :: rest)
      = some (cs, rest) := by
  induction cs with
  | nil => rfl
  | cons c cs ih =>
      rw [List.flatMap_cons, List.append_assoc, readFrom_encodeChar, ih]
      rfl

/-- A quoted text is read back, whatever is behind it. -/
theorem read?_encode (s : String) (rest : List Char) :
    read? ((encode s).toList ++ rest) = some (s, rest) := by
  rw [encode, String.toList_ofList, encodeChars, List.cons_append,
    List.append_assoc, List.singleton_append, read?, readFrom_encodeChars,
    Option.map_some]
  dsimp only
  rw [String.ofList_toList]

/-- Different texts have different quoted forms. -/
theorem encode_injective : Function.Injective encode := by
  intro s t h
  have hs := read?_encode s []
  rw [h, read?_encode, Option.some.injEq, Prod.mk.injEq] at hs
  exact hs.1.symm

end ApiForge.Text.Quoted
