import ApiForge.Cli.FilePath
import ApiForge.Cli.Help
import ApiForge.Cli.Folder
import ApiForge.Cli.Report
import ApiForge.Log.Filter
/-!
A run of the program: what its command line asks for, done on a host. Logging is
settled first, so that a bad filter stops a run before it has begun.
-/

namespace ApiForge.Cli

/-- How a run ends. -/
inductive Exit where
  | success
  | failure
  /-- The command line is not well formed. -/
  | misuse
deriving DecidableEq, Repr

/-- The exit code of a run. -/
def Exit.code : Exit → Nat
  | success => 0
  | failure => 1
  | misuse => 2

variable {m : Type → Type} [Monad m]

-- ============================================================= sessions

/-- A run under way: its host, and how it logs. -/
structure Session (m : Type → Type) where
  host : Host m
  filter : Log.Filter
  format : Log.Format

namespace Session

/-- Logs an event, if the filter admits it. -/
def tell (s : Session m) (e : Event) : m Unit :=
  if s.filter.admits e.record then s.host.log s.format e.record else pure ()

/-- Logs what a result has come about with. -/
def hear {α : Type} (s : Session m) (t : Told α) : m α := do
  t.events.forM s.tell
  return t.result

/-- Reports a failure. -/
def fail (s : Session m) (f : Failure) : m Exit := do
  s.host.note ("error: " ++ f.message)
  return .failure

/-- Loads and prepares the document in a file. -/
def load (s : Session m) (path : String) : m (Except Failure Prepared) := do
  s.tell (.loadStarted path)
  match ← s.host.read path with
  | .error e => return .error (.load (.unavailable path e.message))
  | .ok octets => s.hear (loadDocument path octets)

-- =========================================================== validation

/-- Validates files one after the other. -/
def validate (s : Session m) (inputs : List String) (format : String) : m Exit := do
  let verdicts ← inputs.mapM fun file => do s.hear (Verdict.ofResult file (← s.load file))
  let report : Report := ⟨verdicts⟩
  if format = "json" then report.json.lines.forM s.host.out
  else report.lines.forM s.host.note
  return if report.invalidCount = 0 then .success else .failure

-- =========================================================== generation

/-- Makes folders from the inside out: the first is the one that is wanted, and the
others are made only where they are missed. A folder that exists is as good. -/
def makeFolders (s : Session m) : List String → m (Except FileError Unit)
  | [] => return .ok ()
  | path :: above => do
    match ← s.host.makeFolder path with
    | .ok () => return .ok ()
    | .error .notFound =>
      match ← makeFolders s above with
      | .error e => return .error e
      | .ok () =>
        match ← s.host.makeFolder path with
        | .ok () => return .ok ()
        | .error e => return if ← s.host.isFolder path then .ok () else .error e
    | .error e => return if ← s.host.isFolder path then .ok () else .error e

/-- Writes artifacts into a folder one after the other; answers their paths. After a
failure the earlier ones stay where they are. -/
def writeEach (s : Session m) (folder : String) : List Artifact → m (Except Failure (List String))
  | [] => return .ok []
  | a :: rest => do
    let path := FilePath.join folder a.fileName
    match ← s.host.write path a.contents with
    | .error e => return .error (.artifact path e.message)
    | .ok () =>
      s.tell (.artifactWritten path (Text.Utf8.size a.contents))
      return (← writeEach s folder rest).map (path :: ·)

/-- Writes artifacts into a folder, which is made if it does not exist. -/
def writeArtifacts (s : Session m) (folder : String) (artifacts : List Artifact) :
    m (Except Failure (List String)) := do
  let paths := if folder.isEmpty then [] else folder :: FilePath.above folder
  match ← s.makeFolders paths with
  | .error e => return .error (.folder folder e.message)
  | .ok () => s.writeEach folder artifacts

/-- The settings of a run: those of a file, if one is named, where the command line
does not say otherwise. -/
def settings (s : Session m) (config output package : Option String) :
    m (Except Failure Settings) := do
  let base : Except Settings.Error Settings ← match config with
    | none => pure (.ok {})
    | some path =>
      match ← s.host.read path with
      | .error e => pure (.error (.unavailable path e.message))
      | .ok octets =>
        match Text.Utf8.decode? octets with
        | none => pure (.error (.unavailable path FileError.notText.message))
        | some cs => pure (Settings.parse (String.ofList cs) path)
  return (base.mapError .settings).map fun b =>
    { b with output := output.getD b.output, package := package.getD b.package }

/-- Generates the artifacts of the document in a file, and writes them. -/
def produce (s : Session m) (settings : Settings) (input : String) :
    m (Except Failure (List String)) := do
  match ← s.load input with
  | .error e => return .error e
  | .ok p =>
    match ← s.hear (generateArtifacts settings p.document) with
    | .error e => return .error e
    | .ok artifacts => s.writeArtifacts settings.output artifacts

/-- Generates from the document in a file. -/
def generate (s : Session m) (input : String) (output package config : Option String) :
    m Exit := do
  match ← s.settings config output package with
  | .error e => s.fail e
  | .ok settings =>
    match ← s.produce settings input with
    | .error e =>
      s.tell (.generationFailed input e.message)
      s.fail e
    | .ok paths =>
      s.tell (.generationCompleted input settings.output paths.length)
      paths.forM s.host.out
      s.host.note ("generated " ++ toString paths.length ++ " file(s) in " ++ settings.output)
      return .success

/-- Does what a command says. -/
def perform (s : Session m) (command : Command) : m Exit := do
  s.tell (.started command)
  match command with
  | .generate input output package config => s.generate input output package config
  | .validate inputs format => s.validate inputs format

end Session

-- ================================================================ runs

/-- The log filter of a run: that of the environment if it is well formed, else that
of the command line. -/
def chooseFilter (env : Environment) (level : String) : Except Log.FilterError Log.Filter :=
  match env.logFilter.map Log.Filter.parse with
  | some (.ok f) => .ok f
  | _ => Log.Filter.parse level

/-- Runs the program on the words of its command line. -/
def run (host : Host m) (env : Environment) (words : List String) : m Exit := do
  match Invocation.ofWords env words with
  | .help page full =>
    (page.lines env full).forM host.out
    return .success
  | .version =>
    host.out ("oasgen " ++ generatorVersion)
    return .success
  | .refused =>
    host.note "error: the arguments are not well formed"
    host.note "For more information, try '--help'."
    return .misuse
  | .run level format command =>
    match Log.Format.ofName? format with
    | none =>
      host.note ("error: invalid log format '" ++ format ++ "' (expected pretty or json)")
      return .failure
    | some format =>
      match chooseFilter env level with
      | .error e =>
        host.note ("error: invalid log level '" ++ level ++ "': " ++ e.message)
        return .failure
      | .ok filter => Session.perform { host, filter, format } command

end ApiForge.Cli
