/-
  Sketchwork.Export.Svg — drawings as SVG.

  Every node that draws something becomes a group: its own shapes, then its children in
  drawing order. Nothing of a hidden node is drawn or counts for the size of the drawing.
-/
import Sketchwork.Decimal.Exact
import Sketchwork.Export.Markup
import Sketchwork.Export.Settings
import Sketchwork.Scene.Node

namespace Sketchwork.Export.Svg

/-! ## Numbers -/

/-- A number with the places of the settings, zeros at the end left out; zero has no sign. -/
def number (settings : Settings) (x : Float) : String :=
  let text := (Decimal.fixed settings.precision x).toList
  let text :=
    if text.contains '.' then
      Text.dropEndWhile (· == '.') (Text.dropEndWhile (· == '0') text)
    else text
  if text = ['-', '0'] then "0" else String.ofList text

def pair (settings : Settings) (p : Position) : String :=
  number settings p.x ++ " " ++ number settings p.y

/-! ## Paths -/

/-- `A r r 0 large sweep x y`, to a point. -/
def arcTo (settings : Settings) (radius : Float) (large sweep : Bool) (p : Position) : String :=
  let r := number settings radius
  let flag (b : Bool) := if b then "1" else "0"
  " A " ++ r ++ " " ++ r ++ " 0 " ++ flag large ++ " " ++ flag sweep ++ " " ++ pair settings p

/-- A full turn is drawn in two halves. -/
def arcPath (settings : Settings) (arc : Arc) : String :=
  let sweep := arc.sweep
  let point (angle : Float) := arc.at_ angle
  "M " ++ pair settings (point arc.startAngle) ++
    if Arc.fullTurn ≤ sweep then
      arcTo settings arc.radius false true (point (arc.startAngle + Real64.pi)) ++
        arcTo settings arc.radius false true (point arc.startAngle)
    else arcTo settings arc.radius (Real64.pi < sweep) true (point (arc.startAngle + sweep))

def edgePath (settings : Settings) (edge : Edge) : String :=
  match Arc.ofBulge? edge.start edge.stop edge.bulge with
  | some arc => arcTo settings arc.radius (1.0 < edge.bulge.abs) (0.0 < edge.bulge) edge.stop
  | none => " L " ++ pair settings edge.stop

def curvePath (settings : Settings) (curve : Polycurve) : String :=
  match curve.vertices with
  | [] => ""
  | first :: _ =>
    "M " ++ pair settings first ++ "".intercalate (curve.edges.map (edgePath settings)) ++
      (if curve.closed then " Z" else "")

/-! ## Shapes -/

/-- The attribute for a property that is set. -/
def set {α : Type} (name : String) (f : α → String) (value : Option α) : List Attribute :=
  (value.map fun x => (name, f x)).toList

def strokeAttributes (settings : Settings) (stroke : Stroke) : List Attribute :=
  [("stroke", (stroke.color.getD settings.stroke).text),
    ("stroke-width", number settings (stroke.width.getD settings.strokeWidth))]
    ++ set "stroke-dasharray" id (stroke.pattern.bind StrokePattern.dashes?)
    ++ set "stroke-opacity" Decimal.plain stroke.opacity
    ++ (if stroke.scaled == some true then [] else [("vector-effect", "non-scaling-stroke")])

/-- Only closed shapes are filled. -/
def fillAttributes (settings : Settings) (fill : Fill) (closed : Bool) : List Attribute :=
  if closed then ("fill", (fill.color.getD settings.fill).text) :: set "fill-opacity" Decimal.plain fill.opacity
  else [("fill", "none")]

def outline (settings : Settings) (style : Style) (closed : Bool) (name : String)
    (attributes : List Attribute) : Markup :=
  .element name
    (attributes ++ strokeAttributes settings style.stroke ++ fillAttributes settings style.fill closed) []

/-- Text is filled with the color of strokes. -/
def caption (settings : Settings) (style : Style) (c : Caption) : Markup :=
  let turned : List Attribute :=
    if c.rotation != 0.0 then
      [("transform",
        "rotate(" ++ number settings (Real64.degrees c.rotation) ++ " " ++ pair settings c.position ++ ")")]
    else []
  .element "text"
    ([("x", number settings c.position.x), ("y", number settings c.position.y),
      ("font-size", number settings c.size), ("fill", (style.stroke.color.getD settings.stroke).text)] ++ turned)
    [.text c.content]

def shape (settings : Settings) (style : Style) : Entity → Markup
  | .point p =>
    outline settings style false "path"
      [("d", "M " ++ pair settings p ++ " h 0"), ("stroke-linecap", "round")]
  | .segment p q =>
    outline settings style false "path" [("d", "M " ++ pair settings p ++ " L " ++ pair settings q)]
  | .circle c r =>
    outline settings style true "circle"
      [("cx", number settings c.x), ("cy", number settings c.y), ("r", number settings r)]
  | .arc arc => outline settings style false "path" [("d", arcPath settings arc)]
  | .polycurve curve => outline settings style curve.closed "path" [("d", curvePath settings curve)]
  | .polyface loops =>
    outline settings style true "path"
      [("d", " ".intercalate (loops.map (curvePath settings))), ("fill-rule", "evenodd")]
  | .text c => caption settings style c

/-! ## Groups -/

/-- The attributes of a group. Opacity compounds, so only the node that sets it has it. -/
def groupAttributes (node : Node) : List Attribute :=
  set "data-feature" id node.feature?
    ++ (if node.name.isEmpty then [] else [("data-name", node.name)])
    ++ set "opacity" Decimal.plain node.style.opacity

mutual

/-- The group of a node in the style of its parent; none when nothing in it is drawn. -/
def group (settings : Settings) : Node → Style → Option Markup
  | ⟨id, name, provenance, hidden, z, style, entities, attributes, children⟩, parent =>
    if hidden then none
    else
      let style' := style.withDefaults parent
      let below := groups settings children style'
      let drawn := entities.map (shape settings style') ++
        ((below.mergeSort fun a b => Real64.totalLe a.1 b.1).filterMap (·.2))
      if drawn.isEmpty then none
      else
        some (.element "g"
          (groupAttributes ⟨id, name, provenance, hidden, z, style, entities, attributes, children⟩) drawn)

/-- The groups of nodes, each with the place of its node. -/
def groups (settings : Settings) : List Node → Style → List (Float × Option Markup)
  | [], _ => []
  | node :: nodes, parent => (node.z, group settings node parent) :: groups settings nodes parent

end

/-! ## Drawings -/

mutual

/-- The box around all that is drawn. -/
def extent : Node → Bounds
  | ⟨_, _, _, hidden, _, _, entities, _, children⟩ =>
    if hidden then .empty else extents (Bounds.mergeAll (entities.map Entity.bounds)) children

def extents (box : Bounds) : List Node → Bounds
  | [] => box
  | node :: nodes => extents (box.merge (extent node)) nodes

end

/-- The part of the plane that the drawing shows. -/
def view (settings : Settings) (root : Node) : Bounds :=
  let box := extent root
  (if box.isEmpty then Bounds.ofPoint .origin else box).inflate settings.padding

def document (settings : Settings) (root : Node) : Markup :=
  let view := view settings root
  let num := number settings
  let size := [("width", num view.width), ("height", num view.height)]
  let background := settings.background.toList.map fun color =>
    Markup.element "rect" ([("x", num view.minX), ("y", num view.minY), ("fill", color.text)] ++ size) []
  .element "svg"
    ([("xmlns", "http://www.w3.org/2000/svg"),
      ("viewBox", " ".intercalate [num view.minX, num view.minY, num view.width, num view.height])] ++ size)
    (background ++ (group settings root .empty).toList)

def render (settings : Settings) (root : Node) : String :=
  (document settings root).render

end Sketchwork.Export.Svg
