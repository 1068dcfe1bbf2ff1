/-
  Sketchwork.Draft.Loading — drafts from documents on a disk.

  A path leads to a single document, to a folder of documents, or to a folder that keeps
  them in a folder of its own; an index file stands for the folder it is in. Every document
  is named after its file, up to the first dot.
-/
import Sketchwork.Disk.Path
import Sketchwork.Draft.Basic

namespace Sketchwork.Draft

/-- The file that marks the folder of a draft. -/
def indexName : String :=
  "index.json"

/-- The folder inside the folder of a draft that holds its documents, when there is one. -/
def documentsName : String :=
  "sketch-features"

/-- The name of the source in a file of a name; none when the file is no document. -/
def sourceName? (fileName : String) : Option String :=
  let stem := Path.stem fileName
  let suffix := Path.extension? fileName
  if !stem.isEmpty && (suffix == some "yaml" || suffix == some "yml") then some stem else none

/-- The path that a draft is loaded from. -/
def home (path : String) : String :=
  if Path.fileName? path == some indexName then Path.parent path else path

/-- The name that the path of a draft suggests for its main source. -/
def titleOf? (path : String) : Option String :=
  (Path.fileName? (home path)).bind fun name =>
    let stem := Path.stem name
    if stem.isEmpty then none else some stem

variable {m : Type → Type} [Monad m]

/-- The result of a look at the disk. -/
def ofDisk {α : Type} (x : m (Except Disk.Fault α)) : ExceptT Failure m α :=
  ExceptT.adapt .disk (ExceptT.mk x)

/-- Reads a document into a draft. -/
def readInto (disk : Disk m) (path name : String) (draft : Draft) : ExceptT Failure m Draft := do
  let text ← ofDisk (disk.read path)
  ofExcept (draft.edit (.document name text))

/-- Reads the documents among the files of a folder, in order of their names. -/
def readAll (disk : Disk m) (folder : String) : List String → Draft → ExceptT Failure m Draft
  | [], draft => return draft
  | fileName :: fileNames, draft => do
    let path := Path.join folder fileName
    match sourceName? fileName with
    | some name =>
      if ← disk.isFile path then
        readAll disk folder fileNames (← readInto disk path name draft)
      else readAll disk folder fileNames draft
    | none => readAll disk folder fileNames draft

def sorted (names : List String) : List String :=
  names.mergeSort fun a b => !decide (b < a)

/-- The draft at a path. -/
def load (disk : Disk m) (path : String) (config : Config) : ExceptT Failure m Draft := do
  let path := home path
  match ← ofDisk (disk.look path) with
  | .file =>
    match (Path.fileName? path).bind sourceName? with
    | some name => readInto disk path name (.empty config)
    | none => throw (.unsupportedFile path)
  | .folder names =>
    let inner := Path.join path documentsName
    match ← disk.look inner with
    | .ok (.folder names) => readAll disk inner (sorted names) (.empty config)
    | _ => readAll disk path (sorted names) (.empty config)

end Sketchwork.Draft
