/-
  Sketchwork.Disk.Path — paths as they are written.

  A path is a text of parts with slashes between them. An empty part and a single dot stay
  where they are, so the last part that does more names what the path leads to.
-/
import Sketchwork.Text.Blank
import Sketchwork.Text.Fields

namespace Sketchwork.Path

/-- The text between slashes. -/
def parts (path : String) : List String :=
  (Text.splitWhere (· == '/') path.toList).map String.ofList

/-- Whether a part stays where it is. -/
def stays (part : String) : Bool :=
  part == "" || part == "."

/-- The names that a path goes through when every part but `..` goes down. -/
def names (path : String) : List String :=
  (parts path).foldl (fun names part =>
    if stays part then names else if part == ".." then names.dropLast else names ++ [part]) []

/-- The parts up to the last one that leads somewhere, in reverse. -/
def reach (parts : List String) : List String :=
  parts.reverse.dropWhile stays

/-- The name at the end of a path; none when it ends by going up or leads nowhere. -/
def fileName? (path : String) : Option String :=
  match reach (parts path) with
  | [] => none
  | name :: _ => if name == ".." then none else some name

/-- The path of the folder that a path is in. -/
def parent (path : String) : String :=
  match (reach (reach (parts path)).tail.reverse).reverse with
  | [] => if path.toList.head? == some '/' then "/" else "."
  | parts => "/".intercalate parts

def join (folder name : String) : String :=
  if folder.toList.getLast? == some '/' then folder ++ name else folder ++ "/" ++ name

/-! ## Names of files -/

/-- A name up to its first dot. -/
def stem (name : String) : String :=
  String.ofList (name.toList.takeWhile (· != '.'))

/-- What follows the last dot of a name; a dot in front begins no extension. -/
def extension? (name : String) : Option String :=
  let cs := name.toList
  match cs.reverse.dropWhile (· != '.') with
  | [] | [_] => none
  | _ => some (String.ofList (cs.reverse.takeWhile (· != '.')).reverse)

end Sketchwork.Path
