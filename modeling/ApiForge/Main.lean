import ApiForge.Cli.Run
import ApiForge.Json.Printer
import Std.Time.Format
/-!
The command-line program: a run on the host that the operating system is. Log
records go to standard error; those in JSON carry the time.
-/

namespace ApiForge.Cli.Machine

/-- The file error of a failed operation. -/
def fileError (e : IO.Error) : FileError :=
  match e with
  | .noFileOrDirectory .. => .notFound
  | .alreadyExists .. => .present
  | .inappropriateType _ 20 _ => .notFolder
  | .inappropriateType _ 21 _ => .isFolder
  | .invalidArgument _ 36 _ => .nameTooLong
  | e => .other (toString e)

/-- The outcome of an operation on files. -/
def attempt {α : Type} (act : IO α) : IO (Except FileError α) := do
  match ← act.toBaseIO with
  | .ok a => return .ok a
  | .error e => return .error (fileError e)

/-- The time as log records show it: in universal time, to the microsecond. -/
def now : IO String := do
  let time := Std.Time.DateTime.ofTimestamp (← Std.Time.Timestamp.now) .UTC
  return time.format "uuuu-MM-dd'T'HH:mm:ss.SSSSSS'Z'"

/-- Shows a log record on standard error. -/
def log (format : Log.Format) (r : Log.Record) : IO Unit := do
  match format with
  | .pretty => IO.eprintln r.text
  | .json =>
    let timestamp := ("timestamp", Json.Value.str (← now))
    IO.eprintln (Json.Value.obj (timestamp :: r.members)).compact

/-- The operating system as a host. -/
def host : Host IO where
  read path := attempt do return (← IO.FS.readBinFile path).toList
  write path text := attempt (IO.FS.writeFile path text)
  makeFolder path := attempt (IO.FS.createDir path)
  isFolder path := do
    match ← attempt (IO.FS.readBinFile path) with
    | .error .isFolder => return true
    | _ => return false
  out := IO.println
  note := IO.eprintln
  log := log

end ApiForge.Cli.Machine

/-- Runs the program on the words of its command line. -/
def main (words : List String) : IO UInt32 := do
  let env ← ApiForge.Cli.Environment.read (m := IO) fun name => IO.getEnv name
  return (← ApiForge.Cli.run ApiForge.Cli.Machine.host env words).code.toUInt32
