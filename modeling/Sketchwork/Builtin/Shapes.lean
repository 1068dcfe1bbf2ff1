/-
  Sketchwork.Builtin.Shapes — the shapes that features draw.
-/
import Sketchwork.Builtin.Args

namespace Sketchwork.Shapes

/-- The height of a text that names none. -/
def textSize : Float :=
  12.0

/-- `point(x, y)` or `point(p)` -/
def point (args : Args) : Except Error Entity := do
  let (p, _) ← args.place 0
  return .point p

/-- `segment(p, q)` or `segment(x, y, x', y')` -/
def segment (args : Args) : Except Error Entity := do
  let (p, next) ← args.place 0
  let (q, _) ← args.place next
  return .segment p q

/-- `circle(center, radius)` -/
def circle (args : Args) : Except Error Entity := do
  let (center, next) ← args.place 0
  let radius ← args.positive next
  return .circle center radius

/-- `arc(center, radius, from, to)`, counter-clockwise, angles in degrees -/
def arc (args : Args) : Except Error Entity := do
  let (center, next) ← args.place 0
  let radius ← args.positive next
  let start ← args.number (next + 1)
  let stop ← args.number (next + 2)
  return .arc ⟨center, radius, Real64.radians start, Real64.radians stop⟩

/-- Every argument as a point. -/
def points (args : Args) : Except Error (List Position) :=
  (List.range args.values.length).mapM args.point

/-- `polycurve(p, q, …)` or `polycurve([p, q, …])` -/
def polycurve (args : Args) : Except Error Entity := do
  let listed : Args := match args.values with
    | [.list items] => if (Value.list items).point?.isNone then { args with values := items } else args
    | _ => args
  let vertices ← points listed
  if vertices.length < 2 then throw (args.fault vertices.length .fewVertices)
  return .polycurve (.straight vertices false)

/-- `rectangle(corner, width, height)` -/
def rectangle (args : Args) : Except Error Entity := do
  let (corner, next) ← args.place 0
  let width ← args.number next
  let height ← args.number (next + 1)
  let (x, y) := (corner.x, corner.y)
  return .polycurve (.straight [⟨x, y⟩, ⟨x + width, y⟩, ⟨x + width, y + height⟩, ⟨x, y + height⟩] true)

/-- The curves that an entity can bound a region with. -/
def outlines : Entity → List Polycurve
  | .polycurve curve => [curve]
  | .polyface loops => loops
  | _ => []

/-- The loops of one argument: a list of at least three points, a curve, or every curve that
    a sketch draws. -/
def loops (args : Args) (i : Nat) : Except Error (List Polycurve) :=
  match args.get? i with
  | none => .ok []
  | some (.sketch node) => .ok ((node.subtreeEntities .pre).flatMap outlines)
  | some (.entity (.polycurve curve)) => .ok [curve]
  | some (.entity (.polyface loops)) => .ok loops
  | some (.list items) =>
    if (Value.list items).point?.isSome then .error (args.fault i (.notLoop (Value.list items).kind))
    else match items.mapM Value.point? with
      | none => .error (args.fault i .notPoints)
      | some points =>
        if points.length < 3 then .error (args.fault i .shortLoop)
        else .ok [.straight points true]
  | some other => .error (args.fault i (.notLoop other.kind))

/-- `polyface(outer, hole, …)` -/
def polyface (args : Args) : Except Error Entity := do
  let found ← (List.range args.values.length).mapM fun i => do
    let found ← loops args i
    if found.isEmpty then throw (args.fault i .noOutline)
    return found
  if found.isEmpty then throw (args.fault 0 .noLoops)
  return .face found.flatten

/-- `text(position, content, size, rotation)`, the last two with defaults -/
def text (args : Args) : Except Error Entity := do
  let position ← args.point 0
  let content ← match args.get? 1 with
    | some (.number x) => pure (Decimal.plain x)
    | _ => args.text 1
  let size ← args.orElse 2 textSize Args.positive
  let rotation ← args.orElse 3 0.0 Args.number
  return .text ⟨position, content, size, Real64.radians rotation⟩

/-- `bbox()`: the rectangle around all that a sketch holds -/
def bbox (node : Node) : Except Error Entity :=
  let box := Bounds.mergeAll ((node.subtreeEntities .level).map Entity.bounds)
  if box.isEmpty then .error .emptyShape else .ok (.polycurve (.straight box.corners true))

end Sketchwork.Shapes
