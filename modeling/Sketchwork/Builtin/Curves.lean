/-
  Sketchwork.Builtin.Curves — closing, taking apart, joining and rounding curves.
-/
import Sketchwork.Builtin.Args
import Sketchwork.Geometry.Joining

namespace Sketchwork.Curves

/-- `close()`: closes every curve -/
def close (node : Node) : Node :=
  node.mapEntities (List.map fun
    | .polycurve curve => .polycurve curve.close
    | other => other)

/-! ## Taking apart -/

def edgeEntity (edge : Edge) : Entity :=
  match Arc.ofBulge? edge.start edge.stop edge.bulge with
  | some arc => .arc arc
  | none => .segment edge.start edge.stop

/-- The edges of a curve; any other entity stays. -/
def pieces : Entity → List Entity
  | .polycurve curve => curve.edges.map edgeEntity
  | other => [other]

/-- `explode()`: puts segments and arcs in the place of every curve -/
def explode (node : Node) : Node :=
  node.mapEntities fun entities => entities.flatMap pieces

/-! ## Joining -/

/-- The entity as an open curve that can be joined; a full turn is closed already. -/
def joinable? : Entity → Option Polycurve
  | .segment p q => some (.straight [p, q] false)
  | .arc arc =>
    let sweep := Real64.wrap (arc.endAngle - arc.startAngle) Arc.fullTurn
    if sweep == 0.0 then none
    else some (.ofBulges [arc.at_ arc.startAngle, arc.at_ arc.endAngle] [(sweep / 4.0).tan] false)
  | .polycurve curve => if !curve.closed && 2 ≤ curve.corners.length then some curve else none
  | _ => none

/-- `join()`: takes segments, arcs and open curves out of their nodes and puts what they join
    to into a new child -/
def join (fresh : NodeId) (node : Node) : Except Error Node :=
  let found := (node.subtreeEntities .pre).filterMap joinable?
  if found.isEmpty then .error .emptyShape
  else
    let left := node.mapEntities (List.filter fun entity => (joinable? entity).isNone)
    .ok (left.add [.holding fresh ((Polycurve.join found).map .polycurve)])

/-! ## Rounding -/

/-- Rounds the corners of curves; other entities stay. -/
def roundEntity (radius : Float) : Entity → Except Error Entity
  | .polycurve curve =>
    match curve.rounded radius with
    | .ok rounded => .ok (.polycurve rounded)
    | .error fault => .error (.fillet fault)
  | other => .ok other

def isPolycurve : Entity → Bool
  | .polycurve _ => true
  | _ => false

/-- `fillet(radius)`: rounds every straight corner of every curve -/
def fillet (node : Node) (args : Args) : Except Error Node := do
  let radius ← args.number 0
  let rounded ← node.mapEntitiesM (List.mapM (roundEntity radius))
  if (node.subtreeEntities .pre).any isPolycurve then return rounded else throw .emptyShape

end Sketchwork.Curves
