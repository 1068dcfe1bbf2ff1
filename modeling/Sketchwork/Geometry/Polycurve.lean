/-
  Sketchwork.Geometry.Polycurve — curves of straight and circular edges.

  A curve is a list of corners. Each corner carries the bulge of the edge that leaves it; in
  an open curve the bulge of the last corner belongs to no edge, in a closed one to the edge
  back to the first corner. A bulge is the sagitta over half the chord, positive for a
  counter-clockwise arc, 0 for a straight edge.
-/
import Sketchwork.Geometry.Arc
import Sketchwork.Geometry.Similarity

namespace Sketchwork

structure Corner where
  position : Position
  /-- The bulge of the edge that leaves the corner. -/
  bulge : Float
  deriving Repr, BEq

structure Edge where
  start : Position
  stop : Position
  bulge : Float
  deriving Repr, BEq

structure Polycurve where
  corners : List Corner
  closed : Bool
  deriving Repr, BEq

/-- The bulge of an edge read from its stop to its start; 0 stays without a sign. -/
def Edge.flipBulge (bulge : Float) : Float :=
  if bulge == 0.0 then 0.0 else -bulge

def Edge.bounds (edge : Edge) : Bounds :=
  match Arc.ofBulge? edge.start edge.stop edge.bulge with
  | some arc => arc.bounds
  | none => Bounds.ofPoints [edge.start, edge.stop]

namespace Polycurve

/-! ## Building -/

/-- Corners at positions with bulges: missing bulges are straight edges, further ones are
    left out. -/
def cornersOf : List Position → List Float → List Corner
  | [], _ => []
  | p :: ps, [] => ⟨p, 0.0⟩ :: cornersOf ps []
  | p :: ps, b :: bs => ⟨p, b⟩ :: cornersOf ps bs

def ofBulges (vertices : List Position) (bulges : List Float) (closed : Bool) : Polycurve :=
  ⟨cornersOf vertices bulges, closed⟩

/-- A curve of straight edges. -/
def straight (vertices : List Position) (closed : Bool) : Polycurve :=
  ofBulges vertices [] closed

/-- The closed curve through the corners of a curve. -/
def close (curve : Polycurve) : Polycurve :=
  { curve with closed := true }

/-! ## Reading -/

def vertices (curve : Polycurve) : List Position :=
  curve.corners.map (·.position)

/-- One bulge per corner. -/
def bulges (curve : Polycurve) : List Float :=
  curve.corners.map (·.bulge)

/-- The edges from each corner to the next. -/
def edgesAlong : List Corner → List Edge
  | c :: d :: rest => ⟨c.position, d.position, c.bulge⟩ :: edgesAlong (d :: rest)
  | _ => []

/-- The edges in order, the closing one last; a single corner has none. -/
def edges (curve : Polycurve) : List Edge :=
  match curve.corners with
  | c :: d :: rest => edgesAlong (if curve.closed then c :: d :: rest ++ [c] else c :: d :: rest)
  | _ => []

def bounds (curve : Polycurve) : Bounds :=
  curve.edges.foldl (fun box edge => box.merge edge.bounds) (Bounds.ofPoints curve.vertices)

/-! ## Moving and turning round -/

/-- Similarities keep the orientation of the plane, so bulges stay. -/
def transform (t : Similarity Float) (curve : Polycurve) : Polycurve :=
  { curve with corners := curve.corners.map fun c => { c with position := t.apply c.position } }

/-- The same curve run through backwards: the closing edge stays last. -/
def reversed (curve : Polycurve) : Polycurve :=
  let flipped := curve.bulges.map Edge.flipBulge
  ofBulges curve.vertices.reverse (flipped.dropLast.reverse ++ flipped.getLast?.toList) curve.closed

/-! ## Laws -/

@[simp]
theorem vertices_ofBulges (ps : List Position) (bs : List Float) (closed : Bool) :
    (ofBulges ps bs closed).vertices = ps := by
  unfold ofBulges vertices
  induction ps generalizing bs with
  | nil => simp [cornersOf]
  | cons p ps ih => cases bs <;> simp [cornersOf, ih]

theorem bulges_ofBulges {ps : List Position} {bs : List Float} (h : bs.length = ps.length)
    (closed : Bool) : (ofBulges ps bs closed).bulges = bs := by
  unfold ofBulges bulges
  induction ps generalizing bs with
  | nil => cases bs <;> simp_all [cornersOf]
  | cons p ps ih => cases bs <;> simp_all [cornersOf]

end Polycurve

end Sketchwork
