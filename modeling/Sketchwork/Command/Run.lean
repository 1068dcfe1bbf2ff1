/-
  Sketchwork.Command.Run — what the program does with its arguments.

  The configuration comes first, then the format; only then the draft is loaded, one of its
  sources rendered and the result written.
-/
import Sketchwork.Command.Arguments
import Sketchwork.Config.Reader
import Sketchwork.Draft.Loading

namespace Sketchwork.Command

variable {m : Type → Type} [Monad m]

/-! ## Configuration -/

/-- The configuration in a file. -/
def readConfig (disk : Disk m) (path : String) : ExceptT Failure m Config := do
  if ← disk.has path then
    match ← disk.read path with
    | .error fault => throw (.config (.unreadable path fault))
    | .ok text =>
      match Config.read? text with
      | some config => return config
      | none => throw (.config .malformed)
  else throw (.config (.missing path))

/-- The configuration in the first file that is there, or the default one. -/
def firstConfig (disk : Disk m) : List String → ExceptT Failure m Config
  | [] => return .default
  | path :: paths => do if ← disk.has path then readConfig disk path else firstConfig disk paths

/-- The files that a configuration is looked for in, the one of the user last. -/
def configPaths (userFolder : Option String) : List String :=
  "drafter/config.toml" :: (userFolder.map fun folder => Path.join folder "drafter/config.toml").toList

def findConfig (disk : Disk m) (userFolder path : Option String) : ExceptT Failure m Config :=
  match path with
  | some path => readConfig disk path
  | none => firstConfig disk (configPaths userFolder)

/-! ## Source -/

/-- The source to render: the one asked for, the only one, or the one that the path names. -/
def selectSource (draft : Draft) (input : String) (asked : Option String) : Except Failure String :=
  match asked, draft.names with
  | some name, _ => .ok name
  | none, [name] => .ok name
  | none, names =>
    match Draft.titleOf? input with
    | none => .error (.unknownSource input)
    | some name => if name ∈ names then .ok name else .error (.unknownSource name)

/-! ## Run -/

/-- Renders the selected source. Fresh ids begin at a serial. -/
def rendered (draft : Draft) (serial : Nat) (format : Export.Format) (arguments : Arguments) :
    Except Failure String := do
  let name ← selectSource draft arguments.input arguments.source
  ((draft.render name arguments.values format arguments.settings).run ⟨serial, []⟩).1

/-- Renders and writes; the text is returned when there is no file to write it to. -/
def run (disk : Disk m) (userFolder : Option String) (serial : Nat) (arguments : Arguments) :
    ExceptT Failure m (Option String) := do
  let config ← findConfig disk userFolder arguments.config
  let format ← ofExcept ((Export.Format.read arguments.format).mapError .rendering)
  let draft ← Draft.load disk arguments.input config
  let text ← ofExcept (rendered draft serial format arguments)
  match arguments.output with
  | none => return some text
  | some path =>
    Draft.ofDisk (disk.write path text)
    return none

end Sketchwork.Command
