/-
  Sketchwork.Main — the program on the disk of the machine.

  Renderings go to the standard output or to a file, reports of failures to the standard
  error. The exit code is 0 for a rendering, 1 for a failure and 2 for a command line that
  starts nothing.
-/
import Sketchwork.Command.Report
import Sketchwork.Command.Run

namespace Sketchwork.Command

/-! ## Disk -/

def faultOf : IO.Error → Disk.Fault
  | .noFileOrDirectory .. => .missing
  | .permissionDenied .. => .denied
  | .inappropriateType _ code _ => if code == 21 then .isFolder else .notFolder
  | e => .other (toString e)

def attempt {α : Type} (action : IO α) : IO (Except Disk.Fault α) := do
  try return .ok (← action)
  catch e => return .error (faultOf e)

def machine : Disk IO where
  look path := do
    if path.isEmpty then return .error .missing
    attempt do
      let place := (← IO.currentDir) / path
      match (← place.metadata).type with
      | .dir => return .folder ((← place.readDir).toList.map (·.fileName))
      | _ => return .file
  read path := do
    match ← attempt (IO.FS.readBinFile path) with
    | .error fault => return .error fault
    | .ok bytes => return (String.fromUTF8? bytes).elim (.error .notText) .ok
  write path text := attempt (IO.FS.writeFile path text)

/-- The folder of the user's configurations. -/
def userFolder : IO (Option String) := do
  match ← IO.getEnv "XDG_CONFIG_HOME" with
  | some folder => return some folder
  | none => return (← IO.getEnv "HOME").map (Path.join · ".config")

/-! ## Texts -/

def usageText : String :=
  "Usage: drafter [OPTIONS] <INPUT>\n\n" ++
  "  <INPUT>                   a document, the folder of a draft or its index.json\n" ++
  "  -s, --source <SOURCE>     the source to render\n" ++
  "  -a, --arg <VALUE>         an argument of the source; may come several times\n" ++
  "  -f, --format <FORMAT>     svg, json or debug\n" ++
  "  -O, --option <KEY=VALUE>  padding, background, precision or pretty\n" ++
  "  -o, --output <OUTPUT>     the file to write\n" ++
  "  -c, --config <CONFIG>     the file of the configuration\n" ++
  "      --log-level <LEVEL>   off for no reports\n" ++
  "  -h, --help                this text\n" ++
  "  -V, --version             the version\n"

def Flag.name : Flag → String
  | source => "--source"
  | arg => "--arg"
  | format => "--format"
  | option => "--option"
  | output => "--output"
  | config => "--config"
  | logLevel => "--log-level"
  | help => "--help"
  | version => "--version"

def Usage.message : Usage → String
  | help => usageText
  | version => "drafter 0.1.0\n"
  | missingInput => "error: the path of the draft is missing\n"
  | unknownWord word => "error: unexpected argument `" ++ word ++ "`\n"
  | missingValue flag => "error: `" ++ flag.name ++ "` needs a value\n"
  | needlessValue flag => "error: `" ++ flag.name ++ "` takes no value\n"
  | repeated flag => "error: `" ++ flag.name ++ "` can be given only once\n"
  | notAnOption value => "error: expected KEY=VALUE, found `" ++ value ++ "`\n"

/-- A report on lines of its own. -/
def reportText (report : Report) : String :=
  let severity := match report.severity with
    | some .warning => "warning"
    | _ => "error"
  let help := report.help.elim "" fun help => "  help: " ++ help ++ "\n"
  let labels := report.labels.map fun label =>
    "  at " ++ toString label.span.start ++ ".." ++ toString label.span.stop ++ ": " ++ label.message ++ "\n"
  severity ++ "[" ++ report.code ++ "]: " ++ report.message ++ "\n" ++ "".intercalate labels ++ help

/-! ## Program -/

/-- A serial that no other run begins with. -/
def freshSerial : IO Nat := do
  let high ← IO.rand 0 (Nat.pow 2 62)
  let low ← IO.rand 0 (Nat.pow 2 62)
  return high * Nat.pow 2 64 + low

def start (arguments : Arguments) : IO UInt32 := do
  match ← (run machine (← userFolder) (← freshSerial) arguments).run with
  | .ok none => return 0
  | .ok (some text) =>
    IO.println text
    return 0
  | .error failure =>
    if arguments.logLevel.toLower != "off" then
      failure.reports.forM fun report => IO.eprint (reportText report)
    return 1

/-- Runs the words of a command line. -/
def program (words : List String) : IO UInt32 := do
  match Arguments.read words with
  | .ok arguments => start arguments
  | .error usage =>
    if usage == .help || usage == .version then
      IO.print usage.message
      return 0
    else
      IO.eprint usage.message
      return 2

end Sketchwork.Command

def main (words : List String) : IO UInt32 :=
  Sketchwork.Command.program words
