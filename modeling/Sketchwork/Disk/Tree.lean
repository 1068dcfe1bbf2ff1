/-
  Sketchwork.Disk.Tree — a disk in memory.

  The root is the working folder. Paths are followed part by part: what a path goes through
  has to be a folder, also where it stays. Above the root and at absolute paths there are
  only empty folders.
-/
import Sketchwork.Assoc
import Sketchwork.Disk.Basic
import Sketchwork.Disk.Path

namespace Sketchwork.Disk

inductive Tree where
  | file (content : String)
  | folder (entries : List (String × Tree))
  deriving Repr, Inhabited

namespace Tree

def empty : Tree :=
  .folder []

/-- The longest name and the longest path, in bytes. -/
def maxName : Nat :=
  255

def maxPath : Nat :=
  4095

/-- Where parts lead from a place with the folders above it, the innermost first. -/
def follow (here : Tree) (above : List Tree) : List String → Except Fault Tree
  | [] => .ok here
  | part :: parts =>
    match here with
    | .file _ => .error .notFolder
    | .folder entries =>
      if Path.stays part then follow here above parts
      else if part = ".." then
        match above with
        | [] => follow empty [] parts
        | outer :: above => follow outer above parts
      else if maxName < part.utf8ByteSize then .error .nameTooLong
      else
        match Assoc.get? entries part with
        | none => .error .missing
        | some entry => follow entry (here :: above) parts

/-- What a path leads to. -/
def at_ (tree : Tree) (path : String) : Except Fault Tree :=
  if path.isEmpty then .error .missing
  else if path.toList.contains (Char.ofNat 0) then .error .zeroByte
  else if maxPath < path.utf8ByteSize then .error .nameTooLong
  else follow (if path.toList.head? == some '/' then empty else tree) [] (Path.parts path)

def entry : Tree → Entry
  | .file _ => .file
  | .folder entries => .folder (Assoc.keys entries)

/-- Puts a tree at the end of a row of names; folders on the way are made, files on the way
    replaced. -/
def put (new : Tree) : List String → Tree → Tree
  | [], _ => new
  | name :: names, here =>
    let entries := match here with
      | .file _ => []
      | .folder entries => entries
    .folder (Assoc.insert name (put new names ((Assoc.get? entries name).getD empty)) entries)

/-- Puts a tree at a path. -/
def place (new : Tree) (path : String) (tree : Tree) : Tree :=
  put new (Path.names path) tree

def read (tree : Tree) (path : String) : Except Fault String := do
  match ← tree.at_ path with
  | .file content => return content
  | .folder _ => throw .isFolder

/-- Writes a file; the folder it is in has to be there. -/
def write (tree : Tree) (path content : String) : Except Fault Tree :=
  match tree.at_ path with
  | .ok (.folder _) => .error .isFolder
  | .ok (.file _) => .ok (place (.file content) path tree)
  | .error .missing => do
    match ← tree.at_ (Path.parent path) with
    | .folder _ => return place (.file content) path tree
    | .file _ => throw .notFolder
  | .error fault => .error fault

/-- The tree in a state as a disk. -/
def disk : Disk (StateM Tree) where
  look path := do return ((← get).at_ path).map entry
  read path := do return (← get).read path
  write path content := do
    match (← get).write path content with
    | .ok tree =>
      set tree
      return .ok ()
    | .error fault => return .error fault

end Tree

end Sketchwork.Disk
