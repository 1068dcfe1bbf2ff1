/-
  Sketchwork.Builtin.Motions — the similarities that features move a scene by.
-/
import Sketchwork.Builtin.Args

namespace Sketchwork.Motions

/-- `translate(dx, dy)` or `translate(offset)` -/
def translate (args : Args) : Except Error (Similarity Float) := do
  let (offset, _) ← args.place 0
  return .displacement offset.x offset.y

/-- `rotate(degrees, origin)`, about the zero point when no origin is given -/
def rotate (args : Args) : Except Error (Similarity Float) := do
  let angle ← args.number 0
  let origin ← args.orElse 1 .origin Args.point
  return .rotation (Real64.radians angle) origin

/-- `scale(factor, origin)` -/
def scale (args : Args) : Except Error (Similarity Float) := do
  let factor ← args.positive 0
  let origin ← args.orElse 1 .origin Args.point
  return .scaling factor origin

/-- `transform(offset, degrees, factor)`: scaled, rotated about the zero point, then moved -/
def transform (args : Args) : Except Error (Similarity Float) := do
  let (offset, next) ← args.place 0
  let angle ← args.orElse next 0.0 Args.number
  let factor ← args.orElse (next + 1) 1.0 Args.positive
  return (Similarity.scaling factor .origin).andThen (.rotation (Real64.radians angle) .origin)
    |>.andThen (.displacement offset.x offset.y)

/-- The similarity that carries one segment to another. -/
def carry (s0 s1 d0 d1 : Position) : Except Error (Similarity Float) :=
  match Similarity.correspondence s0 s1 d0 d1 with
  | .ok t => .ok t
  | .error fault => .error (.alignment fault)

/-- `orient(s0, s1, d0, d1)` -/
def orient (args : Args) : Except Error (Similarity Float) := do
  let s0 ← args.point 0
  let s1 ← args.point 1
  let d0 ← args.point 2
  let d1 ← args.point 3
  carry s0 s1 d0 d1

/-- `snap(source, destination, offset)`: carries a segment to a segment and moves on by the
    offset along it, or moves a point to a point -/
def snap (args : Args) : Except Error (Similarity Float) := do
  let offset ← args.orElse 2 0.0 Args.number
  match args.segment 0, args.segment 1 with
  | .ok (s0, s1), .ok (d0, d1) =>
    let t ← carry s0 s1 d0 d1
    let shift := ((d1.sub d0).normalize?.map (·.scale offset)).getD .origin
    return t.andThen (.displacement shift.x shift.y)
  | _, _ =>
    let source ← args.point 0
    let destination ← args.point 1
    let delta := destination.sub source
    return (Similarity.displacement delta.x delta.y).andThen (.displacement 0.0 0.0)

end Sketchwork.Motions
