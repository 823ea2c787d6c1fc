import ApiForge.Cli.Arguments
import ApiForge.Text.Blank
import ApiForge.Text.Terminal
/-!
The pages of help. A page in short has a line for each option, its text in a
column; a page in full gives the text a line of its own. Only the page of
`validate` has a fuller form. Values of the environment may bring line feeds, after
which the text goes on in its column, and control sequences, which are taken out of
the whole page.
-/

namespace ApiForge.Cli

-- ============================================================= options

/-- An option on a page of help. -/
structure HelpEntry where
  letter : Option Char
  /-- The long name with the name of the value. -/
  label : String
  about : String
  /-- Remarks in brackets. -/
  remarks : List String := []
deriving DecidableEq, Repr

namespace Key

/-- What help says about an option. -/
def about (scope : Scope) : Key → String
  | logLevel => "Log level (trace, debug, info, warn, error). RUST_LOG takes precedence"
  | logFormat => "Log format (pretty or json)"
  | input =>
    if scope = .validate then "Input document(s) (YAML or JSON)"
    else "Input document (YAML or JSON)"
  | output => "Output directory [default: ./generated]"
  | package => "Package name recorded in the generated mod.rs [default: api]"
  | config => "Generator configuration file (YAML). Flags override its values"
  | format => "Output format (text or json)"

/-- The name of the value of an option. -/
def valueName (k : Key) : String :=
  String.ofList (k.long.toList.map fun c => if c = '-' then '_' else c.toUpper)

/-- An option on a page of help. -/
def entry (env : Environment) (scope : Scope) (k : Key) : HelpEntry where
  letter := k.short?
  label := "--" ++ k.long ++ " <" ++ k.valueName ++ ">" ++ (if scope.takesMany k then "..." else "")
  about := k.about scope
  remarks :=
    (k.envName?.map fun v => "[env: " ++ v ++ "=" ++ (env.options.lookup k).getD "" ++ "]").toList
      ++ (k.default?.map fun d => "[default: " ++ d ++ "]").toList

end Key

namespace HelpEntry

/-- The beginning of the lines of an entry. -/
def head (e : HelpEntry) : String :=
  (match e.letter with
    | some c => "  -" ++ String.ofList [c] ++ ", "
    | none => "      ") ++ e.label

/-- A line of spaces. -/
def spaces (n : Nat) : String :=
  String.ofList (List.replicate n ' ')

/-- A text whose lines, but for the first, begin with so many spaces. -/
def indent (n : Nat) (s : String) : String :=
  ("\n" ++ spaces n).intercalate (Text.splitAtChar '\n' s)

/-- The line of an entry in short; labels stand in a column of a given width. -/
def line (width : Nat) (e : HelpEntry) : String :=
  e.head ++ spaces (width - e.label.length + 2)
    ++ indent (width + 8) (" ".intercalate (e.about :: e.remarks))

/-- The lines of an entry in full. -/
def paragraph (e : HelpEntry) : List String :=
  e.head :: ((if e.remarks.isEmpty then [e.about] else e.about :: "" :: e.remarks).map fun s =>
    spaces 10 ++ indent 10 s)

end HelpEntry

/-- The lines of entries, in full or in short. -/
def entryLines (full : Bool) (entries : List HelpEntry) : List String :=
  if full then [""].intercalate (entries.map HelpEntry.paragraph)
  else
    let width := entries.foldl (fun w e => max w e.label.length) 0
    entries.map (HelpEntry.line width)

-- =============================================================== pages

namespace Scope

/-- What help says about a scope, in short. -/
def about : Scope → String
  | top => "OpenAPI 3.x to Rust code generator"
  | generate => "Generate Rust sources from an OpenAPI document"
  | validate => "Load, normalize and validate document(s) without generating"

/-- Whether the page of a scope has a fuller form. -/
def hasFullPage (s : Scope) : Bool := s == validate

/-- What the page of a scope begins with. -/
def opening (full : Bool) (s : Scope) : List String :=
  if full then
    [s.about ++ ".", "",
      "Checks top-level fields (E1010-E1012) and every \x60$ref\x60 (E1020-E1023)."]
  else [s.about]

/-- How a scope is used. -/
def usage : Scope → String
  | top => "Usage: oasgen [OPTIONS] <COMMAND>"
  | generate => "Usage: oasgen generate [OPTIONS] --input <INPUT>"
  | validate => "Usage: oasgen validate [OPTIONS] --input <INPUT>..."

/-- The flag that asks for help. -/
def helpEntry (full : Bool) (s : Scope) : HelpEntry where
  letter := some 'h'
  label := "--help"
  about :=
    if !s.hasFullPage then "Print help"
    else if full then "Print help (see a summary with '-h')"
    else "Print help (see more with '--help')"

/-- The options of a scope on its page. -/
def entries (env : Environment) (full : Bool) (s : Scope) : List HelpEntry :=
  s.keys.map (Key.entry env s) ++ [s.helpEntry full]
    ++ (if s = top then [⟨some 'V', "--version", "Print version", []⟩] else [])

/-- The subcommands on the page of a scope. -/
def commandLines (s : Scope) : List String :=
  if s = top then
    ["Commands:", "  generate  " ++ generate.about, "  validate  " ++ validate.about,
      "  help      Print this message or the help of the given subcommand(s)", ""]
  else []

/-- The page of a scope. -/
def page (env : Environment) (full : Bool) (s : Scope) : List String :=
  let full := full && s.hasFullPage
  s.opening full ++ ["", s.usage, ""] ++ s.commandLines ++ "Options:" ::
    entryLines full (s.entries env full)

end Scope

namespace Page

/-- A page of help before control sequences are taken out of it. -/
def marked (env : Environment) (full : Bool) : Page → List String
  | scope s => s.page env full
  | help =>
    ["Print this message or the help of the given subcommand(s)", "",
      "Usage: oasgen help [COMMAND]...", "", "Arguments:",
      "  [COMMAND]...  Print help for the subcommand(s)"]

/-- The lines of a page of help. -/
def lines (env : Environment) (full : Bool) (p : Page) : List String :=
  Text.splitAtChar '\n'
    (String.ofList (Text.Terminal.strip ("\n".intercalate (p.marked env full)).toList))

end Page

end ApiForge.Cli
