/-
  Sketchwork.Geometry.Bounds — boxes along the axes.

  The empty box is neutral for `merge`: a box is empty when a lower side lies above the
  upper one.
-/
import Sketchwork.Geometry.Point

namespace Sketchwork

structure Bounds where
  minX : Float
  minY : Float
  maxX : Float
  maxY : Float
  deriving Repr, BEq

namespace Bounds

/-- The box that no point is in. -/
def empty : Bounds :=
  ⟨1.0 / 0.0, 1.0 / 0.0, -1.0 / 0.0, -1.0 / 0.0⟩

def ofPoint (p : Position) : Bounds :=
  ⟨p.x, p.y, p.x, p.y⟩

def isEmpty (b : Bounds) : Bool :=
  b.maxX < b.minX || b.maxY < b.minY

def width (b : Bounds) : Float :=
  if b.isEmpty then 0.0 else b.maxX - b.minX

def height (b : Bounds) : Float :=
  if b.isEmpty then 0.0 else b.maxY - b.minY

/-- The smallest box around both. -/
def merge (a b : Bounds) : Bounds :=
  if a.isEmpty then b
  else if b.isEmpty then a
  else ⟨Real64.min a.minX b.minX, Real64.min a.minY b.minY, Real64.max a.maxX b.maxX, Real64.max a.maxY b.maxY⟩

def cover (b : Bounds) (p : Position) : Bounds :=
  b.merge (ofPoint p)

/-- The smallest box around points. -/
def ofPoints (ps : List Position) : Bounds :=
  ps.foldl cover empty

/-- The smallest box around boxes. -/
def mergeAll (bs : List Bounds) : Bounds :=
  bs.foldl merge empty

/-- The box grown by `amount` on every side. -/
def inflate (b : Bounds) (amount : Float) : Bounds :=
  if b.isEmpty then b
  else ⟨b.minX - amount, b.minY - amount, b.maxX + amount, b.maxY + amount⟩

/-- The corners, counter-clockwise from the lower left. -/
def corners (b : Bounds) : List Position :=
  [⟨b.minX, b.minY⟩, ⟨b.maxX, b.minY⟩, ⟨b.maxX, b.maxY⟩, ⟨b.minX, b.maxY⟩]

theorem merge_empty_left {a : Bounds} (h : a.isEmpty = true) (b : Bounds) : a.merge b = b := by
  simp [merge, h]

end Bounds

end Sketchwork
