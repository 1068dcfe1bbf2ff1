/-
  Sketchwork.Geometry.Rounding — rounding every straight corner of a curve.

  A corner is rounded when both edges that meet there are straight; the two ends of an open
  curve are no corners. Neighbouring roundings have to leave room for each other on the edge
  between them.
-/
import Sketchwork.Geometry.Polycurve
import Sketchwork.Geometry.Fillet

namespace Sketchwork

/-- Why a curve cannot be rounded. -/
inductive RoundingFault where
  | corner (fault : CornerFault Float)
  /-- The arcs at the two ends of an edge overlap. -/
  | overlap (radius : Float) (edge : Nat)
  deriving Repr

namespace Polycurve

/-- What two roundings may overlap by. -/
def slack : Float :=
  1e-9

/-- For each corner, whether two edges of the curve meet there. -/
def hasBothEdges (curve : Polycurve) : List Bool :=
  if curve.closed then curve.corners.map fun _ => true
  else false :: List.replicate (curve.corners.length - 2) true ++ [false]

/-- The arc that rounds a corner, none where the corner stays. -/
def fillet? (radius : Float) (inner : Bool) (before corner after : Corner) :
    Except (CornerFault Float) (Option (Fillet Float)) :=
  if !inner || before.bulge != 0.0 || corner.bulge != 0.0 then .ok none
  else (Fillet.corner before.position corner.position after.position radius).map some

/-- The arcs for all corners, in order. -/
def fillets (curve : Polycurve) (radius : Float) :
    Except (CornerFault Float) (List (Option (Fillet Float))) :=
  let corners := curve.corners
  (((corners.rotateRight 1).zip (corners.zip (corners.rotateLeft 1))).zip curve.hasBothEdges).mapM
    fun ((before, corner, after), inner) => fillet? radius inner before corner after

/-- What the arcs at both ends take away from an edge. -/
def trimmed (edge : Edge) (here there : Option (Fillet Float)) : Float :=
  here.elim 0.0 (·.stop.distance edge.start) + there.elim 0.0 (·.start.distance edge.stop)

/-- The first edge that is too short for the arcs at its ends. -/
def overlapping? (curve : Polycurve) (arcs : List (Option (Fillet Float))) : Option Nat :=
  (curve.edges.zip (arcs.zip (arcs.rotateLeft 1))).findIdx? fun (edge, here, there) =>
    edge.start.distance edge.stop + slack < trimmed edge here there

/-- A corner with its arc put in. -/
def cut (corner : Corner) : Option (Fillet Float) → List Corner
  | some arc => [⟨arc.start, arc.bulge⟩, ⟨arc.stop, corner.bulge⟩]
  | none => [corner]

/-- The curve with every straight corner rounded. -/
def rounded (curve : Polycurve) (radius : Float) : Except RoundingFault Polycurve :=
  if curve.corners.length < 3 then .ok curve
  else match curve.fillets radius with
    | .error fault => .error (.corner fault)
    | .ok arcs =>
      match curve.overlapping? arcs with
      | some edge => .error (.overlap radius edge)
      | none => .ok { curve with corners := (curve.corners.zip arcs).flatMap fun (c, arc) => cut c arc }

end Polycurve

end Sketchwork
