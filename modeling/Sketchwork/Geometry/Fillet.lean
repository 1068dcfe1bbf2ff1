/-
  Sketchwork.Geometry.Fillet — rounding a corner with a tangent arc.

  The corner `a → b → c` turns by the angle `θ` from the direction of `b - a` to that of
  `c - b`. The arc of radius `r` that replaces it touches both sides at the distance
  `r / tan (|θ| / 2)` from `b`. Its bulge is the sagitta over half the chord, positive for a
  turn to the left.
-/
import Sketchwork.Geometry.Point

namespace Sketchwork

/-- The arc that replaces a corner. -/
structure Fillet (α : Type) where
  start : Point α
  stop : Point α
  bulge : α
  deriving Repr

/-- Why a corner cannot be rounded. -/
inductive CornerFault (α : Type) where
  | radius (radius : α)
  | emptySide
  | collinear
  /-- The half chord is longer than the radius at a turn by `angle`. -/
  | shallow (radius angle : α)
  deriving Repr

variable {α : Type} [Add α] [Sub α] [Mul α] [Div α] [Neg α] [OfNat α 0] [OfNat α 1] [OfNat α 2]
  [OfScientific α] [BEq α] [LT α] [DecidableLT α] [LE α] [DecidableLE α] [Analysis α]

/-- An angle brought into `(-π, π]`. -/
def normalizeAngle (angle : α) : α :=
  let full : α := 2 * Analysis.pi
  let angle := Analysis.remainder angle full
  if angle ≤ -Analysis.pi then angle + full
  else if Analysis.pi < angle then angle - full
  else angle

namespace Fillet

/-- Sines of turns below this count as none. -/
def collinearTolerance : α :=
  1e-9

/-- Rounds the corner `a → b → c` with an arc of the given radius. -/
def corner (a b c : Point α) (radius : α) : Except (CornerFault α) (Fillet α) :=
  if ¬ 0 < radius ∨ Analysis.isFinite radius = false then .error (.radius radius)
  else match (b.sub a).normalize?, (c.sub b).normalize? with
    | some v0, some v1 =>
      let turn := normalizeAngle (v1.angle - v0.angle)
      if Analysis.abs (Analysis.sin turn) < collinearTolerance then .error .collinear
      else
        let angle := Analysis.abs turn
        let trim := Analysis.abs (radius / Analysis.tan (angle / 2))
        let start := b.sub (v0.scale trim)
        let stop := b.add (v1.scale trim)
        let halfChord := start.distance stop / 2
        if radius < halfChord then .error (.shallow radius angle)
        else
          let sagitta := radius - Analysis.sqrt (radius * radius - halfChord * halfChord)
          let sign : α := if turn < 0 then -1 else 1
          .ok ⟨start, stop, sign * (sagitta / halfChord)⟩
    | _, _ => .error .emptySide

end Fillet

end Sketchwork
