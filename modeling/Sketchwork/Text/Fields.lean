/-
  Sketchwork.Text.Fields — texts cut at separators.
-/

namespace Sketchwork.Text

/-- The parts before, between and behind the characters of `p`. -/
def splitWhere (p : Char → Bool) : List Char → List (List Char)
  | [] => [[]]
  | c :: cs =>
    match splitWhere p cs with
    | [] => [[c]]
    | part :: parts => if p c then [] :: part :: parts else (c :: part) :: parts

/-- The parts that are not empty. -/
def fields (p : Char → Bool) (cs : List Char) : List (List Char) :=
  (splitWhere p cs).filter fun part => !part.isEmpty

end Sketchwork.Text
