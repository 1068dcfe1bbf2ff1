/-
  Sketchwork.Geometry.Similarity — rotations, uniform scalings and displacements.

  A similarity is the complex map `z ↦ m z + t` with `m = a + b i`. The one that carries a
  segment onto another has `m` the quotient of their directions, so no trigonometry is
  involved and maps along the axes stay exact.
-/
import Sketchwork.Geometry.Point

namespace Sketchwork

structure Similarity (α : Type) where
  /-- The real part of the factor. -/
  a : α
  /-- The imaginary part of the factor. -/
  b : α
  tx : α
  ty : α
  deriving DecidableEq, Repr

/-- A segment of no length fixes no direction. -/
inductive Degenerate where
  | source
  | destination
  deriving DecidableEq, Repr

namespace Similarity

variable {α : Type} [Add α] [Sub α] [Mul α] [Div α] [OfNat α 0] [OfNat α 1] [BEq α]

def identity : Similarity α :=
  ⟨1, 0, 0, 0⟩

def displacement (dx dy : α) : Similarity α :=
  ⟨1, 0, dx, dy⟩

/-- The image of a point. -/
def apply (t : Similarity α) (p : Point α) : Point α :=
  ⟨t.a * p.x - t.b * p.y + t.tx, t.b * p.x + t.a * p.y + t.ty⟩

/-- The image of a direction: the displacement does not act on it. -/
def applyVector (t : Similarity α) (v : Point α) : Point α :=
  ⟨t.a * v.x - t.b * v.y, t.b * v.x + t.a * v.y⟩

/-- The similarity with factor `a + b i` that carries `source` to `target`. -/
def carrying (a b : α) (source target : Point α) : Similarity α :=
  let moved := apply ⟨a, b, 0, 0⟩ source
  ⟨a, b, target.x - moved.x, target.y - moved.y⟩

/-- The similarity with factor `a + b i` that fixes `origin`. -/
def about (a b : α) (origin : Point α) : Similarity α :=
  carrying a b origin origin

def scaling (factor : α) (origin : Point α) : Similarity α :=
  about factor 0 origin

/-- The counter-clockwise rotation by an angle. -/
def rotation [Analysis α] (angle : α) (origin : Point α) : Similarity α :=
  about (Analysis.cos angle) (Analysis.sin angle) origin

/-- The similarity that carries `s0` to `d0` and `s1` to `d1`. -/
def correspondence (s0 s1 d0 d1 : Point α) : Except Degenerate (Similarity α) :=
  let u := s1.sub s0
  let v := d1.sub d0
  if u.isZero then .error .source
  else if v.isZero then .error .destination
  else .ok (carrying (v.dot u / u.dot u) (u.cross v / u.dot u) s0 d0)

/-- First `t`, then `next`. -/
def andThen (t next : Similarity α) : Similarity α :=
  let moved := next.apply ⟨t.tx, t.ty⟩
  ⟨next.a * t.a - next.b * t.b, next.a * t.b + next.b * t.a, moved.x, moved.y⟩

variable [Analysis α]

/-- The angle the plane is turned by. -/
def turn (t : Similarity α) : α :=
  Analysis.atan2 t.b t.a

/-- The factor lengths grow by. -/
def factor (t : Similarity α) : α :=
  Analysis.hypot t.a t.b

end Similarity

end Sketchwork
