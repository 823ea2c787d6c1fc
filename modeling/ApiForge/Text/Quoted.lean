import ApiForge.Text.Plain
/-!
Quoted text: a text between double quotes, with a backslash before a quote and
a backslash, short escapes for four control characters and a hexadecimal code
point for every other character that `isPlain` does not show. It is the form
of string literals in the generated source and of texts in error messages.
-/

namespace ApiForge.Text.Quoted

/-- The escape that names a character by its code point. -/
def codePoint (c : Char) : List Char :=
  '\\' :: 'u' :: '\x7b' :: (Nat.toDigits 16 c.toNat ++ ['\x7d'])

/-- A character as it stands inside quotes. -/
def encodeChar (c : Char) : List Char :=
  match c with
  | '\x00' => ['\\', '0']
  | '\t' => ['\\', 't']
  | '\r' => ['\\', 'r']
  | '\n' => ['\\', 'n']
  | '"' => ['\\', '"']
  | '\\' => ['\\', '\\']
  | c => if isPlain c then [c] else codePoint c

/-- The quoted form of a list of characters. -/
def encodeChars (cs : List Char) : List Char :=
  '"' :: (cs.flatMap encodeChar ++ ['"'])

/-- The quoted form of a text. -/
def encode (s : String) : String :=
  String.ofList (encodeChars s.toList)

end ApiForge.Text.Quoted
