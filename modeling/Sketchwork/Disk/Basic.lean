/-
  Sketchwork.Disk.Basic — what is read from a disk and written to it.

  A disk is given by what it does in some monad: a tree in memory in a state, the disk of
  the machine in the outer layer of the program.
-/

namespace Sketchwork

namespace Disk

/-- Why a path cannot be used. -/
inductive Fault where
  | missing
  | denied
  /-- A part of the path that is not its end is a file. -/
  | notFolder
  | isFolder
  | nameTooLong
  /-- A zero byte, which no path can hold. -/
  | zeroByte
  /-- The bytes of a file are no text. -/
  | notText
  | other (message : String)
  deriving DecidableEq, Repr

def Fault.message : Fault → String
  | missing => "No such file or directory (os error 2)"
  | denied => "Permission denied (os error 13)"
  | notFolder => "Not a directory (os error 20)"
  | isFolder => "Is a directory (os error 21)"
  | nameTooLong => "File name too long (os error 36)"
  | zeroByte => "file name contained an unexpected NUL byte"
  | notText => "stream did not contain valid UTF-8"
  | other message => message

/-- What a path leads to. -/
inductive Entry where
  | file
  /-- A folder with the names in it. -/
  | folder (names : List String)
  deriving DecidableEq, Repr

end Disk

structure Disk (m : Type → Type) where
  look : String → m (Except Disk.Fault Disk.Entry)
  read : String → m (Except Disk.Fault String)
  write : String → String → m (Except Disk.Fault Unit)

namespace Disk

variable {m : Type → Type} [Monad m]

/-- Whether a path leads anywhere. -/
def has (disk : Disk m) (path : String) : m Bool := do
  return (← disk.look path).toBool

def isFile (disk : Disk m) (path : String) : m Bool := do
  match ← disk.look path with
  | .ok .file => return true
  | _ => return false

end Disk

end Sketchwork
