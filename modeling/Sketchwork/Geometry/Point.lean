/-
  Sketchwork.Geometry.Point — points of the plane, which also serve as vectors.
-/
import Sketchwork.Geometry.Analysis

namespace Sketchwork

structure Point (α : Type) where
  x : α
  y : α
  deriving DecidableEq, Repr, BEq

/-- A point with coordinates in doubles. -/
abbrev Position := Point Float

namespace Point

variable {α : Type} [Add α] [Sub α] [Mul α] [Div α] [Neg α] [OfNat α 0] [OfNat α 1] [OfNat α 2] [BEq α]

def origin : Point α :=
  ⟨0, 0⟩

def add (p q : Point α) : Point α :=
  ⟨p.x + q.x, p.y + q.y⟩

def sub (p q : Point α) : Point α :=
  ⟨p.x - q.x, p.y - q.y⟩

def scale (p : Point α) (factor : α) : Point α :=
  ⟨p.x * factor, p.y * factor⟩

def midpoint (p q : Point α) : Point α :=
  ⟨(p.x + q.x) / 2, (p.y + q.y) / 2⟩

def dot (p q : Point α) : α :=
  p.x * q.x + p.y * q.y

/-- Positive where `q` lies counter-clockwise of `p`. -/
def cross (p q : Point α) : α :=
  p.x * q.y - p.y * q.x

def isZero (p : Point α) : Bool :=
  p.x == 0 && p.y == 0

/-- The vector turned left by a right angle. -/
def leftNormal (p : Point α) : Point α :=
  ⟨-p.y, p.x⟩

variable [Analysis α]

def length (p : Point α) : α :=
  Analysis.hypot p.x p.y

def distance (p q : Point α) : α :=
  (p.sub q).length

/-- The vector of length one in the same direction; none for the zero vector. -/
def normalize? (p : Point α) : Option (Point α) :=
  let length := p.length
  if length == 0 || !Analysis.isFinite length then none else some (p.scale (1 / length))

/-- The polar angle, between `-π` and `π`. -/
def angle (p : Point α) : α :=
  Analysis.atan2 p.y p.x

/-- The point at an angle and a distance from a center. -/
def polar (center : Point α) (radius angle : α) : Point α :=
  ⟨center.x + radius * Analysis.cos angle, center.y + radius * Analysis.sin angle⟩

end Point

end Sketchwork
