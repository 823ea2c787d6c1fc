import ApiForge.Document.Read
import ApiForge.Reference.Check
/-!
The settings of a generation run. They are read from a YAML file in which every
field may be left out and no other may stand; an empty file sets nothing.
-/

namespace ApiForge

/-- What to generate, and where to. -/
structure Settings where
  package : String := "api"
  output : String := "./generated"
  emitSecurity : Bool := true
  emitWebhooks : Bool := true
deriving DecidableEq, Repr, Inhabited

namespace Settings

/-- The fields of settings. -/
def layout : Layout :=
  ⟨"struct GeneratorConfig", ["package", "output", "emit_security", "emit_webhooks"], []⟩

/-- Reads settings. -/
def read (item : Item) : Read Settings := do
  match (← item.bindings).find? fun b => !layout.fields.contains b.1 with
  | some b => .fail (.unknownField b.1)
  | none =>
    item.record layout {} fun s field item => do
      match field with
      | "package" => return { s with package := ← item.text }
      | "output" => return { s with output := ← item.text }
      | "emit_security" => return { s with emitSecurity := ← item.flag }
      | "emit_webhooks" => return { s with emitWebhooks := ← item.flag }
      | _ => return s

/-- Why settings cannot be used. -/
inductive Error where
  /-- The file cannot be read; `reason` is the system's. -/
  | unavailable (path reason : String)
  | malformed (path : String)
deriving DecidableEq, Repr

/-- The wording of an error. -/
def Error.message : Error → String
  | unavailable path reason => "config error: failed to read " ++ path ++ ": " ++ reason
  | malformed path => "config error: failed to parse " ++ path

/-- Reads the settings in the text of the file at `path`. -/
def parse (text path : String) : Except Error Settings :=
  if isBlankText text then .ok {}
  else
    match (Yaml.read? (Text.Utf8.bytes text)).map fun stream =>
        (read (Document.itemOfStream stream)).run 0 with
    | some (.ok (s, _)) => .ok s
    | _ => .error (.malformed path)

end Settings

end ApiForge
