import ApiForge.Shape.Hoist
import ApiForge.Source.Step
import ApiForge.Text.Quoted
/-!
Type definitions of the generated source, first as data and then as source. A
record becomes a struct, a choice an enumeration, and every other shape an alias.
Defining one shape may hoist others; `drain` defines these too, until none is left.
-/

namespace ApiForge

open Source (Step)
open Text (Quoted.encode)

/-- The version of the generator. -/
def generatorVersion : String := "0.3.0"

/-- The first line of every artifact. -/
def headerLine : String := "// Code generated by oasgen " ++ generatorVersion ++ ". DO NOT EDIT."

-- ======================================================= definitions

/-- A field of a struct. -/
structure StructField where
  /-- The identifier in the source. -/
  ident : String
  /-- The name in transferred data. -/
  wire : String
  required : Bool
  description : Option String
  type : TypeExpr

/-- What a type name stands for. -/
inductive DefinitionBody where
  | struct (fields : List StructField)
  | enumeration (literals : List String)
  | alias (target : TypeExpr)

/-- A type definition. -/
structure Definition where
  name : String
  description : Option String
  body : DefinitionBody

namespace Definition

/-- The identifier of field number `i` with a given name in transferred data. -/
def fieldIdent (wire : String) (i : Nat) : String :=
  let name := Identifier.fieldName wire
  if name.isEmpty then "field" ++ toString i else name

/-- The fields of a struct. -/
def fieldsOf (c : Catalog) (owner : String) : Nat → List Field → StateM Hoist (List StructField)
  | _, [] => return []
  | i, f :: rest => do
    let type ← Hoist.renderField c f owner
    let field : StructField := ⟨fieldIdent f.name i, f.name, f.required, f.description, type⟩
    return field :: (← fieldsOf c owner (i + 1) rest)

/-- The definition of a shape. -/
def ofShape (c : Catalog) (name : String) (description : Option String) (shape : Shape) :
    StateM Hoist Definition := do
  match shape with
  | .record fields => return ⟨name, description, .struct (← fieldsOf c name 0 fields)⟩
  | .choice literals => return ⟨name, description, .enumeration literals⟩
  | shape => return ⟨name, description, .alias (← Hoist.render shape name)⟩

/-- Defines hoisted shapes, and what they hoist, oldest first; `left` bounds how
many. -/
def drainWithin (c : Catalog) : Nat → StateM Hoist (List Definition)
  | 0 => return []
  | left + 1 => do
    match ← Hoist.next with
    | none => return []
    | some p =>
      let d ← ofShape c p.name none p.shape
      return d :: (← drainWithin c left)

/-- Defines all hoisted shapes. Each definition takes one shape from the queue and
adds only shapes inside it, so the shapes in the queue bound how many there are. -/
def drain (c : Catalog) : StateM Hoist (List Definition) := do
  let h ← get
  drainWithin c (Hoisted.weight h.pending + 1)

-- ============================================================ source

/-- A text as a literal of the source. -/
def literal (s : String) : String := Quoted.encode s

/-- The source of a struct. -/
def structSteps (name : String) (fields : List StructField) : List Step :=
  List.flatten
   [[.line "#[derive(Debug, Clone, PartialEq, serde::Serialize, serde::Deserialize)]",
     .enter ("pub struct " ++ name ++ " \x7b")],
    fields.flatMap fun f =>
      [.doc f.description,
       .line (if f.required then "#[serde(rename = " ++ literal f.wire ++ ")]"
        else "#[serde(rename = " ++ literal f.wire
          ++ ", default, skip_serializing_if = \"Option::is_none\")]"),
       .line ("pub " ++ f.ident ++ ": " ++ f.type.text ++ ",")],
    [.leave "\x7d"]]

/-- The source of an enumeration: the type, its literals as text, its reading from
text and one constant for each literal. -/
def enumerationSteps (name : String) (literals : List String) : List Step :=
  let variant (l : String) := name ++ "::" ++ Identifier.variantName l
  List.flatten
   [[.line "#[derive(Debug, Clone, Copy, PartialEq, Eq, Hash, serde::Serialize, serde::Deserialize)]",
     .enter ("pub enum " ++ name ++ " \x7b")],
    literals.flatMap fun l =>
      [.line ("#[serde(rename = " ++ literal l ++ ")]"),
       .line (Identifier.variantName l ++ ",")],
    [.leave "\x7d",
     .blank,
     .enter ("impl " ++ name ++ " \x7b"),
     .line "/// The literal as it appears on the wire.",
     .enter "pub fn as_str(&self) -> &'static str \x7b",
     .enter "match self \x7b"],
    literals.map fun l => .line (variant l ++ " => " ++ literal l ++ ","),
    [.leave "\x7d",
     .leave "\x7d",
     .leave "\x7d",
     .blank,
     .enter ("impl std::fmt::Display for " ++ name ++ " \x7b"),
     .enter "fn fmt(&self, f: &mut std::fmt::Formatter<'_>) -> std::fmt::Result \x7b",
     .line "f.write_str(self.as_str())",
     .leave "\x7d",
     .leave "\x7d",
     .blank,
     .enter ("impl std::str::FromStr for " ++ name ++ " \x7b"),
     .line "type Err = String;",
     .blank,
     .enter "fn from_str(s: &str) -> Result<Self, Self::Err> \x7b",
     .enter "match s \x7b"],
    literals.map fun l => .line (literal l ++ " => Ok(" ++ variant l ++ "),"),
    [.line ("other => Err(format!(\"unknown " ++ name ++ " value: \x7bother\x7d\")),"),
     .leave "\x7d",
     .leave "\x7d",
     .leave "\x7d",
     .blank],
    literals.map fun l =>
      .line ("pub const " ++ Identifier.constantName name l ++ ": " ++ name ++ " = " ++ variant l
        ++ ";")]

/-- The source of a definition. -/
def steps (d : Definition) : List Step :=
  .doc d.description ::
    match d.body with
    | .struct fields => structSteps d.name fields
    | .enumeration literals => enumerationSteps d.name literals
    | .alias target => [.line ("pub type " ++ d.name ++ " = " ++ target.text ++ ";")]

/-- The source of definitions, with an empty line in front of each. -/
def listSteps (ds : List Definition) : List Step :=
  ds.flatMap fun d => .blank :: d.steps

end Definition

end ApiForge
