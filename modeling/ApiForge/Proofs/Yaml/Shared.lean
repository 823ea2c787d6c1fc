import ApiForge.Proofs.Json.Form
import ApiForge.Proofs.Yaml.Places
import ApiForge.Yaml.Typing
/-!
JSON text that YAML reads alike.

`Form.Shared` singles out the forms that mean the same to both syntaxes. It leaves out
what they differ about: half characters by their numbers, which JSON makes whole in
pairs; characters that end lines, or that no YAML stream may hold; numbers of another
value; and keys that are not followed by their colon soon enough on their line.
`Form.tokens` and `Form.node` are what YAML makes of a form.
-/

namespace ApiForge.Json

open ApiForge.Text.Utf8 (encode)

-- ================================================ statement vocabulary

/-- A part of a string that is one character, and the same in both syntaxes. -/
def Atom.Shared : Atom → Prop
  | plain c _ => Yaml.isAllowed c = true ∧ Yaml.Flat c
  | short _ => True
  | unit a b c d => ¬ IsSurrogate (unitOf a b c d)

instance : (a : Atom) → Decidable a.Shared
  | .plain _ _ => inferInstanceAs (Decidable (_ ∧ _))
  | .short _ => .isTrue trivial
  | .unit _ _ _ _ => inferInstanceAs (Decidable (¬ _))

/-- A number with the same value in both syntaxes, or too large for JSON. -/
def Numeral.Shared (n : Numeral) : Prop :=
  n.tree = .unreadable ∨ Yaml.typed (String.ofList n.chars) = n.tree

/-- A key that is at most 1024 octets away from its colon, on the same line. -/
structure Key.Shared (k : Key) : Prop where
  atoms : ∀ a ∈ k.body, a.Shared
  blank : ∀ w ∈ k.after, w = .space ∨ w = .tab
  near : (encode (quoted k.body ++ k.after.chars)).length ≤ 1024

namespace Form

/-- Lists and objects, which tell by themselves where they end. -/
def IsContainer : Form → Prop
  | noItems _ => True
  | items _ _ => True
  | noMembers _ => True
  | members _ _ => True
  | _ => False

mutual

/-- A value that both syntaxes read alike. -/
def Shared : Form → Prop
  | null => True
  | bool _ => True
  | number n => n.Shared
  | string atoms => ∀ a ∈ atoms, a.Shared
  | noItems _ => True
  | items ⟨_, f, _⟩ rest => f.Shared ∧ ItemsShared rest
  | noMembers _ => True
  | members (k, ⟨_, f, _⟩) rest => Key.Shared k ∧ f.Shared ∧ MembersShared rest

/-- Whether both syntaxes read the items behind the first alike. -/
def ItemsShared : List (Slot Form) → Prop
  | [] => True
  | ⟨_, f, _⟩ :: rest => f.Shared ∧ ItemsShared rest

/-- Whether both syntaxes read the members behind the first alike. -/
def MembersShared : List (Key × Slot Form) → Prop
  | [] => True
  | (k, ⟨_, f, _⟩) :: rest => Key.Shared k ∧ f.Shared ∧ MembersShared rest

end

end Form

-- ====================================================== what YAML makes

/-- The text of parts that are whole characters. -/
def plainText (atoms : List Atom) : String := String.ofList (atoms.filterMap Atom.char?)

namespace Form

open Yaml (Token Node)

mutual

/-- The tokens of a value. -/
def tokens : Form → List Token
  | null => [.scalar "null" .plain]
  | bool b => [.scalar (if b then "true" else "false") .plain]
  | number n => [.scalar (String.ofList n.chars) .plain]
  | string atoms => [.scalar (plainText atoms) .quoted]
  | noItems _ => [.flowSequenceStart, .flowSequenceEnd]
  | items ⟨_, f, _⟩ rest => .flowSequenceStart :: (f.tokens ++ itemTokens rest)
  | noMembers _ => [.flowMappingStart, .flowMappingEnd]
  | members (k, ⟨_, f, _⟩) rest =>
    .flowMappingStart :: .key :: .scalar (plainText k.body) .quoted :: .value
      :: (f.tokens ++ memberTokens rest)

/-- The tokens behind the first item of a list. -/
def itemTokens : List (Slot Form) → List Token
  | [] => [.flowSequenceEnd]
  | ⟨_, f, _⟩ :: rest => .flowEntry :: (f.tokens ++ itemTokens rest)

/-- The tokens behind the first member of an object. -/
def memberTokens : List (Key × Slot Form) → List Token
  | [] => [.flowMappingEnd]
  | (k, ⟨_, f, _⟩) :: rest =>
    .flowEntry :: .key :: .scalar (plainText k.body) .quoted :: .value
      :: (f.tokens ++ memberTokens rest)

end

mutual

/-- The node of a value. -/
def node : Form → Node
  | null => .scalar none "null" .plain
  | bool b => .scalar none (if b then "true" else "false") .plain
  | number n => .scalar none (String.ofList n.chars) .plain
  | string atoms => .scalar none (plainText atoms) .quoted
  | noItems _ => .seq none []
  | items ⟨_, f, _⟩ rest => .seq none (f.node :: itemNodes rest)
  | noMembers _ => .map none []
  | members (k, ⟨_, f, _⟩) rest =>
    .map none ((.scalar none (plainText k.body) .quoted, f.node) :: memberNodes rest)

/-- The nodes of the items behind the first. -/
def itemNodes : List (Slot Form) → List Node
  | [] => []
  | ⟨_, f, _⟩ :: rest => f.node :: itemNodes rest

/-- The nodes of the members behind the first. -/
def memberNodes : List (Key × Slot Form) → List (Node × Node)
  | [] => []
  | (k, ⟨_, f, _⟩) :: rest =>
    (.scalar none (plainText k.body) .quoted, f.node) :: memberNodes rest

end

end Form

end ApiForge.Json
