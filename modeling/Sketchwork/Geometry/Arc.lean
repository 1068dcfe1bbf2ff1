/-
  Sketchwork.Geometry.Arc — circular arcs.

  An arc runs counter-clockwise between two angles; equal angles are a point, angles a full
  turn apart the whole circle. An edge with a bulge is an arc given by its ends: the bulge is
  the sagitta over half the chord, positive for a counter-clockwise arc and 0 for a straight
  edge.
-/
import Sketchwork.Geometry.Bounds

namespace Sketchwork

structure Arc where
  center : Position
  radius : Float
  startAngle : Float
  endAngle : Float
  deriving Repr, BEq

namespace Arc

def fullTurn : Float :=
  2.0 * Real64.pi

/-- The angle the arc sweeps, from 0 to a full turn. -/
def sweep (arc : Arc) : Float :=
  let sweep := Real64.wrap (arc.endAngle - arc.startAngle) fullTurn
  if sweep == 0.0 && arc.endAngle != arc.startAngle then fullTurn else sweep

/-- The point of the circle at an angle. -/
def at_ (arc : Arc) (angle : Float) : Position :=
  arc.center.polar arc.radius angle

/-- The box around the ends and every extreme along the axes that the sweep passes. -/
def bounds (arc : Arc) : Bounds :=
  let sweep := arc.sweep
  let passed := [0.0, 1.0, 2.0, 3.0].filterMap fun quadrant =>
    let angle := quadrant * Real64.pi / 2.0
    if Real64.wrap (angle - arc.startAngle) fullTurn ≤ sweep then some (arc.at_ angle) else none
  Bounds.ofPoints (arc.at_ arc.startAngle :: arc.at_ (arc.startAngle + sweep) :: passed)

/-- The arc of an edge with a bulge; none for a straight edge or one of no length. -/
def ofBulge? (a b : Position) (bulge : Float) : Option Arc :=
  let chord := b.sub a
  let half := chord.length / 2.0
  if bulge == 0.0 || half == 0.0 then none
  else
    let radius := half * (1.0 + bulge * bulge) / (2.0 * bulge.abs)
    -- The distance from the middle of the chord to the center, to the left.
    let offset := half * (1.0 - bulge * bulge) / (2.0 * bulge)
    let normal := chord.leftNormal.scale (1.0 / (2.0 * half))
    let center := (a.midpoint b).add (normal.scale offset)
    let angleA := (a.sub center).angle
    let angleB := (b.sub center).angle
    if 0.0 < bulge then some ⟨center, radius, angleA, angleB⟩
    else some ⟨center, radius, angleB, angleA⟩

end Arc

end Sketchwork
