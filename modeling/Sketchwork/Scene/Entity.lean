/-
  Sketchwork.Scene.Entity — the shapes a node draws.
-/
import Sketchwork.Geometry.Polycurve
import Sketchwork.Geometry.Arc

namespace Sketchwork

/-- A line of text at a position. -/
structure Caption where
  position : Position
  content : String
  size : Float
  /-- Counter-clockwise, in radians. -/
  rotation : Float
  deriving Repr, BEq

inductive Entity where
  | point (position : Position)
  | segment (start stop : Position)
  | circle (center : Position) (radius : Float)
  | arc (arc : Arc)
  | polycurve (curve : Polycurve)
  /-- A region between closed loops: the first bounds it, the others are holes. -/
  | polyface (loops : List Polycurve)
  | text (caption : Caption)
  deriving Repr, BEq

namespace Entity

/-- The region between loops; open ones are closed. -/
def face (loops : List Polycurve) : Entity :=
  .polyface (loops.map Polycurve.close)

def kind : Entity → String
  | point _ => "point"
  | segment _ _ => "segment"
  | circle _ _ => "circle"
  | arc _ => "arc"
  | polycurve _ => "polycurve"
  | polyface _ => "polyface"
  | text _ => "text"

def transform (t : Similarity Float) : Entity → Entity
  | point p => .point (t.apply p)
  | segment p q => .segment (t.apply p) (t.apply q)
  | circle c r => .circle (t.apply c) (r * t.factor)
  | arc a => .arc ⟨t.apply a.center, a.radius * t.factor, a.startAngle + t.turn, a.endAngle + t.turn⟩
  | polycurve curve => .polycurve (curve.transform t)
  | polyface loops => .polyface (loops.map (Polycurve.transform t))
  | text c =>
    .text { c with position := t.apply c.position, size := c.size * t.factor, rotation := c.rotation + t.turn }

/-- The box around the shape; of a text only its position counts. -/
def bounds : Entity → Bounds
  | point p => .ofPoint p
  | text c => .ofPoint c.position
  | segment p q => .ofPoints [p, q]
  | circle c r => .ofPoints [⟨c.x - r, c.y - r⟩, ⟨c.x + r, c.y + r⟩]
  | arc a => a.bounds
  | polycurve curve => curve.bounds
  | polyface loops => .mergeAll (loops.map Polycurve.bounds)

/-- The points that mark the shape. -/
def anchors : Entity → List Position
  | point p => [p]
  | text c => [c.position]
  | segment p q => [p, q]
  | circle c _ => [c]
  | arc a => [a.at_ a.startAngle, a.at_ a.endAngle]
  | polycurve curve => curve.vertices
  | polyface loops => loops.flatMap Polycurve.vertices

end Entity

end Sketchwork
