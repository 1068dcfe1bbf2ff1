/-
  Sketchwork.Value — what expressions evaluate to and features take as arguments.
-/
import Sketchwork.Scene.Description

namespace Sketchwork

inductive Value where
  | null
  | bool (value : Bool)
  | number (value : Float)
  | text (value : String)
  | list (items : List Value)
  | map (entries : List (String × Value))
  | entity (entity : Entity)
  | sketch (node : Node)
  deriving Repr, Inhabited

namespace Value

/-- The name of the kind of value. -/
def kind : Value → String
  | null => "null"
  | bool _ => "boolean"
  | number _ => "number"
  | text _ => "string"
  | list _ => "list"
  | map _ => "map"
  | entity _ => "entity"
  | sketch _ => "sketch"

def isNull : Value → Bool
  | null => true
  | _ => false

def number? : Value → Option Float
  | number x => some x
  | _ => none

def text? : Value → Option String
  | text s => some s
  | _ => none

def bool? : Value → Option Bool
  | bool b => some b
  | _ => none

def sketch? : Value → Option Node
  | sketch node => some node
  | _ => none

/-- What counts as true: all but null, false, zero, an undefined number and the empty text. -/
def truthy : Value → Bool
  | null => false
  | bool b => b
  | number x => x != 0.0 && !x.isNaN
  | text s => !s.isEmpty
  | list _ | map _ | entity _ | sketch _ => true

/-- The entity of a value; of a sketch the first one. -/
def entity? : Value → Option Entity
  | entity e => some e
  | sketch node => node.firstEntity?
  | _ => none

def ofPoint (p : Position) : Value :=
  .entity (.point p)

/-- A point: a point entity, two numbers in a list, a map with `x` and `y`, or a sketch whose
    first entity is a point. -/
def point? : Value → Option Position
  | entity (.point p) => some p
  | list [x, y] => do return ⟨← x.number?, ← y.number?⟩
  | map entries => do return ⟨← (← Assoc.get? entries "x").number?, ← (← Assoc.get? entries "y").number?⟩
  | sketch node => do
    let .point p ← node.firstEntity? | none
    return p
  | _ => none

/-- A directed segment: two points in a list, a segment entity, a curve of two vertices, or a
    sketch whose first entity is one of these. -/
def segment? : Value → Option (Position × Position)
  | list [p, q] => do return (← p.point?, ← q.point?)
  | list _ => none
  | value => do
    match ← value.entity? with
    | .segment p q => some (p, q)
    | .polycurve curve => (match curve.vertices with
      | [p, q] => some (p, q)
      | _ => none)
    | _ => none

/-! ## Text -/

mutual

/-- The value as part of a text. -/
def display : Value → String
  | .null => "null"
  | .bool b => if b then "true" else "false"
  | .number x => Decimal.plain x
  | .text s => s
  | .list items => "[" ++ ", ".intercalate (displayItems items) ++ "]"
  | .map entries => "\x7b" ++ ", ".intercalate (displayEntries entries) ++ "\x7d"
  | .entity e => "<" ++ e.kind ++ ">"
  | .sketch node => "<sketch " ++ node.id.text ++ ">"

def displayItems : List Value → List String
  | [] => []
  | item :: items => display item :: displayItems items

def displayEntries : List (String × Value) → List String
  | [] => []
  | (key, value) :: entries => (key ++ ": " ++ display value) :: displayEntries entries

end

mutual

def json : Value → Json
  | .null => .null
  | .bool b => .bool b
  | .number x => .ofFloat x
  | .text s => .text s
  | .list items => .array (jsonItems items)
  | .map entries => .object (jsonEntries entries)
  | .entity e => e.json
  | .sketch node => node.json

def jsonItems : List Value → List Json
  | [] => []
  | item :: items => json item :: jsonItems items

def jsonEntries : List (String × Value) → List (String × Json)
  | [] => []
  | (key, value) :: entries => (key, json value) :: jsonEntries entries

end

/-! ## Equality -/

mutual

/-- Equality of contents: numbers by value, maps in any order, sketches with their ids. -/
def same : Value → Value → Bool
  | .null, .null => true
  | .bool a, .bool b => a == b
  | .number a, .number b => a == b
  | .text a, .text b => a == b
  | .list as, .list bs => sameItems as bs
  | .map as, .map bs => as.length == bs.length && sameEntries as bs
  | .entity a, .entity b => a == b
  | .sketch a, .sketch b => a.same b
  | _, _ => false

def sameItems : List Value → List Value → Bool
  | [], [] => true
  | a :: as, b :: bs => same a b && sameItems as bs
  | _, _ => false

/-- Every entry of the first map is in the second. -/
def sameEntries : List (String × Value) → List (String × Value) → Bool
  | [], _ => true
  | (key, a) :: as, bs =>
    (match Assoc.get? bs key with
      | some b => same a b
      | none => false) && sameEntries as bs

end

end Value

end Sketchwork
