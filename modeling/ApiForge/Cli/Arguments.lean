import ApiForge.Text.Quoted
/-!
The command line. An option stands before or after the subcommand, depending on
which of them knows it; its value is the next word, or is attached to it with or
without an equals sign. The words of one scope are first scanned into a list of
given options, up to the end, a subcommand, or a request for help; only what was
scanned until then is checked. `Invocation.ofWords` is what the whole line asks for.
-/

namespace ApiForge.Cli

-- ============================================================= options

/-- The options that take a value. -/
inductive Key where
  | logLevel
  | logFormat
  | input
  | output
  | package
  | config
  | format
deriving DecidableEq, Repr

/-- Where options stand: before any subcommand, or after one. -/
inductive Scope where
  | top
  | generate
  | validate
deriving DecidableEq, Repr

namespace Key

/-- The long name of an option. -/
def long : Key → String
  | logLevel => "log-level"
  | logFormat => "log-format"
  | input => "input"
  | output => "output"
  | package => "package"
  | config => "config"
  | format => "format"

/-- The letter of an option. -/
def short? : Key → Option Char
  | input => some 'i'
  | output => some 'o'
  | package => some 'p'
  | config => some 'c'
  | _ => none

/-- The environment variable that stands in for an option. -/
def envName? : Key → Option String
  | logLevel => some "OASGEN_LOG_LEVEL"
  | logFormat => some "OASGEN_LOG_FORMAT"
  | output => some "OASGEN_OUTPUT"
  | package => some "OASGEN_PACKAGE"
  | _ => none

/-- The value of an option that is not given. -/
def default? : Key → Option String
  | logLevel => some "warn"
  | logFormat => some "pretty"
  | format => some "text"
  | _ => none

/-- Whether the value of an option is a path, which cannot be empty. -/
def isPath : Key → Bool
  | input => true
  | output => true
  | config => true
  | _ => false

end Key

namespace Scope

/-- The options that a scope knows, in the order in which help shows them. -/
def keys : Scope → List Key
  | top => [.logLevel, .logFormat]
  | generate => [.input, .logLevel, .logFormat, .output, .package, .config]
  | validate => [.input, .logLevel, .format, .logFormat]

/-- Whether an option takes many values and may be given many times. -/
def takesMany (s : Scope) (k : Key) : Bool :=
  s == validate && k == .input

/-- The option of a long name. -/
def keyOfLong? (s : Scope) (name : String) : Option Key :=
  s.keys.find? fun k => k.long == name

/-- The option of a letter. -/
def keyOfShort? (s : Scope) (c : Char) : Option Key :=
  s.keys.find? fun k => k.short? == some c

end Scope

-- ============================================================ scanning

/-- A word of the command line by its form. -/
inductive Word where
  | plain (text : String)
  /-- Two dashes: no option follows. -/
  | separator
  /-- A long name after two dashes, and what follows an equals sign. -/
  | long (name : String) (value : Option String)
  /-- A letter after one dash, and what follows it. -/
  | short (letter : Char) (rest : List Char)
deriving DecidableEq, Repr

/-- The form of a word. A single dash is plain. -/
def Word.ofText (s : String) : Word :=
  match s.toList with
  | ['-', '-'] => .separator
  | '-' :: '-' :: cs =>
    let name := String.ofList (cs.takeWhile (· != '='))
    match cs.dropWhile (· != '=') with
    | _ :: value => .long name (some (String.ofList value))
    | [] => .long name none
  | '-' :: c :: cs => .short c cs
  | _ => .plain s

/-- An option with the values that it is given. -/
structure Given where
  key : Key
  values : List String
deriving DecidableEq, Repr

/-- Where a scan ends. -/
inductive Ending where
  | finished
  /-- Help is asked for, in full or in short. -/
  | help (full : Bool)
  | version
  | command (name : String) (rest : List String)
  /-- A word has no meaning where it stands. -/
  | wrong
deriving DecidableEq, Repr

/-- The option at the end of a word, with its value if one is attached. -/
def attached (k : Key) : List Char → Given
  | [] => ⟨k, []⟩
  | '=' :: value => ⟨k, [String.ofList value]⟩
  | value => ⟨k, [String.ofList value]⟩

/-- Scans the words of a scope. `seen` holds the options that were given so far,
latest first, and `waiting` says that the latest takes a further value. -/
def scan (scope : Scope) : List Given → Bool → List String → List Given × Ending
  | seen, _, [] => (seen, .finished)
  | seen, waiting, w :: rest =>
    match Word.ofText w with
    | .separator => (seen, if rest.isEmpty then .finished else .wrong)
    | .plain s =>
      match waiting, seen with
      | true, g :: before =>
        scan scope ({ g with values := g.values ++ [s] } :: before) (scope.takesMany g.key) rest
      | _, _ => (seen, if scope = .top then .command s rest else .wrong)
    | .long name value =>
      match scope.keyOfLong? name, value with
      | some k, some v => scan scope (⟨k, [v]⟩ :: seen) false rest
      | some k, none => scan scope (⟨k, []⟩ :: seen) true rest
      | none, some _ => (seen, .wrong)
      | none, none =>
        if name = "help" then (seen, .help true)
        else if name = "version" ∧ scope = .top then (seen, .version)
        else (seen, .wrong)
    | .short c more =>
      match scope.keyOfShort? c with
      | some k => scan scope (attached k more :: seen) more.isEmpty rest
      | none =>
        if c = 'h' then (seen, .help false)
        else if c = 'V' ∧ scope = .top then (seen, .version)
        else (seen, .wrong)

/-- Whether a value suits an option. -/
def Key.admits (k : Key) (value : String) : Bool :=
  !(k.isPath && value.isEmpty)

/-- Whether options are given as they may be: each with values that suit it, and
those that take one value once. -/
def acceptable (scope : Scope) (seen : List Given) : Bool :=
  seen.all (fun g => !g.values.isEmpty && g.values.all g.key.admits
    && (scope.takesMany g.key || seen.countP (fun h => h.key == g.key) == 1))

-- ========================================================= invocations

/-- The environment variables that matter. -/
structure Environment where
  /-- The values that stand in for options. -/
  options : List (Key × String) := []
  /-- A log filter that comes before the one of the command line. -/
  logFilter : Option String := none
deriving DecidableEq, Repr

/-- The environment that `get` describes. -/
def Environment.read {m : Type → Type} [Monad m] (get : String → m (Option String)) :
    m Environment := do
  let options ← [Key.logLevel, .logFormat, .output, .package].filterMapM fun k => do
    match k.envName? with
    | some name => return (← get name).map (k, ·)
    | none => return none
  return { options, logFilter := ← get "RUST_LOG" }

/-- What is to be done. -/
inductive Command where
  | generate (input : String) (output package config : Option String)
  | validate (inputs : List String) (format : String)
deriving DecidableEq, Repr

namespace Command

/-- An optional value in the text of a command. -/
def optionText : Option String → String
  | some s => "Some(" ++ Text.Quoted.encode s ++ ")"
  | none => "None"

/-- The text of a command in log records. -/
def text : Command → String
  | generate input output package config =>
    "Generate \x7b input: " ++ Text.Quoted.encode input ++ ", output: " ++ optionText output
      ++ ", package: " ++ optionText package ++ ", config: " ++ optionText config ++ " \x7d"
  | validate inputs format =>
    "Validate \x7b input: [" ++ ", ".intercalate (inputs.map Text.Quoted.encode)
      ++ "], format: " ++ Text.Quoted.encode format ++ " \x7d"

end Command

/-- The pages of help: one for each scope, and one for the command that shows them. -/
inductive Page where
  | scope (s : Scope)
  | help
deriving DecidableEq, Repr

/-- What a command line asks for. -/
inductive Invocation where
  | help (page : Page) (full : Bool)
  | version
  | run (logLevel logFormat : String) (command : Command)
  /-- The command line is not well formed. -/
  | refused
deriving DecidableEq, Repr

/-- The value that is given for an option. -/
def valueIn? (k : Key) (seen : List Given) : Option String :=
  (seen.find? fun g => g.key == k).bind fun g => g.values.head?

/-- The values that are given for an option, in order. -/
def valuesIn (k : Key) (seen : List Given) : List String :=
  (seen.reverse.filter fun g => g.key == k).flatMap (·.values)

/-- The value of an option: the one that is given, else that of its environment
variable, else its default. -/
def settle (env : Environment) (k : Key) (value : Option String) : Option String :=
  (value.or (env.options.lookup k)).or k.default?

namespace Invocation

/-- The command of a scope, nothing if a value is missing or does not suit. -/
def command? (env : Environment) (scope : Scope) (seen : List Given) : Option Command :=
  match scope with
  | .top => none
  | .generate => do
    let input ← valueIn? .input seen
    let output := settle env .output (valueIn? .output seen)
    if output.all Key.output.admits then
      some (.generate input output (settle env .package (valueIn? .package seen))
        (valueIn? .config seen))
    else none
  | .validate => do
    let inputs := valuesIn .input seen
    if inputs.isEmpty then none
    else some (.validate inputs (← settle env .format (valueIn? .format seen)))

/-- What the words after a subcommand ask for; `top` are the options before it. -/
def ofScope (env : Environment) (top : List Given) (scope : Scope) (words : List String) :
    Invocation :=
  let (seen, ending) := scan scope [] false words
  let common (k : Key) := settle env k ((valueIn? k seen).or (valueIn? k top))
  if !acceptable scope seen then .refused
  else
    match ending with
    | .help full => .help (.scope scope) full
    | .finished =>
      match common .logLevel, common .logFormat, command? env scope seen with
      | some level, some format, some command => .run level format command
      | _, _, _ => .refused
    | _ => .refused

/-- The page of help that words name. -/
def page? : List String → Option Page
  | [] => some (.scope .top)
  | ["generate"] => some (.scope .generate)
  | ["validate"] => some (.scope .validate)
  | ["help"] => some .help
  | _ => none

/-- What a command line asks for. -/
def ofWords (env : Environment) (words : List String) : Invocation :=
  let (top, ending) := scan .top [] false words
  if !acceptable .top top then .refused
  else
    match ending with
    | .help full => .help (.scope .top) full
    | .version => .version
    | .command "generate" rest => ofScope env top .generate rest
    | .command "validate" rest => ofScope env top .validate rest
    | .command "help" rest =>
      match page? rest with
      | some page => .help page true
      | none => .refused
    | _ => .refused

end Invocation

end ApiForge.Cli
