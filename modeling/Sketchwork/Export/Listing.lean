/-
  Sketchwork.Export.Listing — every node of a drawing on lines of its own, hidden ones too.
-/
import Sketchwork.Scene.Node
import Sketchwork.Text.Shown

namespace Sketchwork.Export.Listing

def pair (p : Position) : String :=
  "(" ++ Decimal.plain p.x ++ ", " ++ Decimal.plain p.y ++ ")"

def angle (radians : Float) : String :=
  Decimal.fixed 1 (Real64.degrees radians) ++ "deg"

def describe : Entity → String
  | .point p => "point " ++ pair p
  | .segment p q => "segment " ++ pair p ++ " -> " ++ pair q
  | .circle c r => "circle " ++ pair c ++ " r=" ++ Decimal.plain r
  | .arc a =>
    "arc " ++ pair a.center ++ " r=" ++ Decimal.plain a.radius ++ " " ++ angle a.startAngle ++ ".." ++
      angle a.endAngle
  | .polycurve curve =>
    "polycurve " ++ toString curve.corners.length ++ " vertices" ++ (if curve.closed then ", closed" else "")
  | .polyface loops => "polyface " ++ toString (loops.length - 1) ++ " holes"
  | .text c => "text " ++ Text.shown c.content

def indent (depth : Nat) : String :=
  String.ofList (List.replicate (2 * depth) ' ')

/-- The line of a node itself. -/
def headline (node : Node) : String :=
  node.feature?.getD "node"
    ++ (if node.name.isEmpty then "" else " " ++ Text.shown node.name)
    ++ (if node.hidden then " (hidden)" else "")
    ++ (if node.z != 0.0 then " z=" ++ Decimal.plain node.z else "")

mutual

def lines (depth : Nat) : Node → List String
  | ⟨id, name, provenance, hidden, z, style, entities, attributes, children⟩ =>
    (indent depth ++ headline ⟨id, name, provenance, hidden, z, style, entities, attributes, children⟩)
      :: entities.map (fun e => indent (depth + 1) ++ "- " ++ describe e)
      ++ attributes.map (fun a => indent (depth + 1) ++ "@" ++ a.1 ++ " = " ++ a.2.compact)
      ++ linesAll (depth + 1) children

def linesAll (depth : Nat) : List Node → List String
  | [] => []
  | node :: nodes => lines depth node ++ linesAll depth nodes

end

def render (root : Node) : String :=
  "".intercalate ((lines 0 root).map fun line => line ++ "\n")

end Sketchwork.Export.Listing
