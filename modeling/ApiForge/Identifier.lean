import ApiForge.Text.Blank
import ApiForge.Verb
/-!
Identifiers of the generated Rust source. Every identifier is made from the
tokens of a raw name: its stretches of ASCII letters and digits, cut again
between a lower-case and an upper-case letter. Type, variant and constant
names capitalise and join the tokens; field and method names are the tokens
in lower case with underscores between. Consumed by the shape mapper and all
artifacts.
-/

namespace ApiForge.Identifier

-- =========================================================== tokens

/-- Whether two neighbouring characters stay in one token: all but a
lower-case letter before an upper-case one. -/
def joined (a b : Char) : Bool :=
  !(a.isLower && b.isUpper)

/-- The tokens of a list of characters. -/
def tokenChars (cs : List Char) : List (List Char) :=
  (Text.splitBy (fun c => !c.isAlphanum) cs).flatMap (List.splitBy joined)

/-- The tokens of a raw name, so that `pet-status`, `pet.status` and `petStatus`
all have two. -/
def tokens (raw : String) : List String :=
  (tokenChars raw.toList).map String.ofList

-- ==================================================== reserved words

/-- Words of the target language that are no identifiers. -/
def keywords : List String :=
  ["abstract", "as", "async", "await", "become", "box", "break", "const", "continue",
   "crate", "do", "dyn", "else", "enum", "extern", "false", "final", "fn", "for", "gen",
   "if", "impl", "in", "let", "loop", "macro", "match", "mod", "move", "mut", "override",
   "priv", "pub", "ref", "return", "self", "Self", "static", "struct", "super", "trait",
   "true", "try", "type", "typeof", "unsafe", "unsized", "use", "virtual", "where",
   "while", "yield"]

/-- Keywords that may not be written as raw identifiers either. -/
def pathKeywords : List String := ["crate", "self", "Self", "super"]

/-- Whether a name starts with a digit. -/
def startsWithDigit (name : String) : Bool :=
  match name.toList with
  | c :: _ => c.isDigit
  | [] => false

-- ==================================================== exported names

/-- A token with its first letter in upper case. -/
def capitalizeChars : List Char → List Char
  | [] => []
  | c :: rest => c.toUpper :: rest

/-- A word with its first letter in upper case. -/
def capitalize (word : String) : String :=
  String.ofList (capitalizeChars word.toList)

/-- The exported form of a raw name: its tokens, capitalised and joined. Empty
when the name has no ASCII letter or digit. -/
def exported (raw : String) : String :=
  String.ofList ((tokenChars raw.toList).flatMap capitalizeChars)

/-- The exported form made usable: `whenEmpty` in place of the empty name, and
`mark` in front of a leading digit. -/
def exportedOr (mark whenEmpty raw : String) : String :=
  let name := exported raw
  if name.isEmpty then whenEmpty
  else if startsWithDigit name then mark ++ name
  else name

/-- The type name of a raw name, `whenEmpty` if it yields none. -/
def typeName (raw whenEmpty : String) : String :=
  exportedOr "T" whenEmpty raw

/-- The variant name of a literal of an enumeration. -/
def variantName (literal : String) : String :=
  exportedOr "V" "Empty" literal

/-- The constant that stands for a literal of the enumeration `owner`. -/
def constantName (owner literal : String) : String :=
  let suffix := exported literal
  owner ++ (if suffix.isEmpty then "Empty" else suffix)

-- ======================================================= field names

/-- The field or method name of a raw name: keywords are written raw (`r#type`)
or, where that is not allowed, with a trailing underscore; a leading digit is
shielded by an underscore. Empty when the name has no ASCII letter or digit. -/
def fieldName (raw : String) : String :=
  let name := "_".intercalate
    ((tokenChars raw.toList).map fun t => String.ofList (t.map Char.toLower))
  if pathKeywords.contains name then name ++ "_"
  else if keywords.contains name then "r#" ++ name
  else if startsWithDigit name then "_" ++ name
  else name

/-- A field name without the mark of a raw identifier. -/
def withoutRawMark (name : String) : String :=
  String.ofList (strip name.toList)
where
  /-- Drops every leading mark. -/
  strip : List Char → List Char
    | 'r' :: '#' :: rest => strip rest
    | cs => cs

-- =================================================== operation names

/-- Whether a path segment is a parameter, written in braces. -/
def isParameterSegment (segment : String) : Bool :=
  segment.toList.head? == some '\x7b' && segment.toList.getLast? == some '\x7d'

/-- The exported name of an operation: that of its identifier if it yields one,
else the verb followed by the literal segments of the path. -/
def operationName (verb : Verb) (path : String) (operationId : Option String) : String :=
  match (operationId.map exported).filter (fun n => !n.isEmpty) with
  | some name => typeName name "Operation"
  | none =>
    let literals := (Text.splitAtChar '/' path).filter fun s => !isParameterSegment s
    capitalize verb.key ++ String.join (literals.map exported)

end ApiForge.Identifier
