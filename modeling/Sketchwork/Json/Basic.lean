/-
  Sketchwork.Json.Basic — JSON values.

  Objects keep their entries in order; two objects are the same when they have the same
  entries in any order.
-/
import Sketchwork.Assoc

namespace Sketchwork

inductive Json where
  | null
  | bool (value : Bool)
  | int (value : Int)
  /-- A number written with a point or an exponent. -/
  | number (value : Float)
  | text (value : String)
  | array (items : List Json)
  | object (entries : List (String × Json))
  deriving Repr, Inhabited

namespace Json

/-- The number, `null` where JSON has none. -/
def ofFloat (x : Float) : Json :=
  if x.isFinite then .number x else .null

mutual

def same : Json → Json → Bool
  | .null, .null => true
  | .bool a, .bool b => a == b
  | .int a, .int b => a == b
  | .number a, .number b => a == b
  | .text a, .text b => a == b
  | .array as, .array bs => sameItems as bs
  | .object as, .object bs => as.length == bs.length && sameEntries as bs
  | _, _ => false

def sameItems : List Json → List Json → Bool
  | [], [] => true
  | a :: as, b :: bs => same a b && sameItems as bs
  | _, _ => false

/-- Every entry of the first object is in the second. -/
def sameEntries : List (String × Json) → List (String × Json) → Bool
  | [], _ => true
  | (key, a) :: as, bs =>
    (match Assoc.get? bs key with
      | some b => same a b
      | none => false) && sameEntries as bs

end

mutual

/-- The value with the entries of every object in ascending order of their keys. -/
def sorted : Json → Json
  | .array items => .array (sortedItems items)
  | .object entries => .object ((sortedEntries entries).mergeSort fun a b => !decide (b.1 < a.1))
  | .null => .null
  | .bool b => .bool b
  | .int n => .int n
  | .number x => .number x
  | .text s => .text s

def sortedItems : List Json → List Json
  | [] => []
  | item :: items => sorted item :: sortedItems items

def sortedEntries : List (String × Json) → List (String × Json)
  | [] => []
  | (key, value) :: entries => (key, sorted value) :: sortedEntries entries

end

end Json

end Sketchwork
