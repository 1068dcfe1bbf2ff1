/-
  Sketchwork.Builtin.Table — the built-in features.

  A feature takes a node and arguments to a node. One that needs a new node takes the fresh
  id that comes with the call; no feature needs more than one.
-/
import Sketchwork.Builtin.Curves
import Sketchwork.Builtin.Labels
import Sketchwork.Builtin.Motions
import Sketchwork.Builtin.Shapes
import Sketchwork.Builtin.Styling

namespace Sketchwork

inductive Builtin where
  | point | segment | circle | arc | polycurve | rectangle | polyface | text | bbox
  | name | hide | unhide | z | tag
  | stroke | fill | linestyle | opacity | style
  | add | new
  | fillet | close | explode | join
  | translate | rotate | scale | transform | orient | snap
  deriving DecidableEq, Repr

namespace Builtin

def all : List Builtin :=
  [.point, .segment, .circle, .arc, .polycurve, .rectangle, .polyface, .text, .bbox,
    .name, .hide, .unhide, .z, .tag,
    .stroke, .fill, .linestyle, .opacity, .style,
    .add, .new,
    .fillet, .close, .explode, .join,
    .translate, .rotate, .scale, .transform, .orient, .snap]

def label : Builtin → String
  | .point => "point"
  | .segment => "segment"
  | .circle => "circle"
  | .arc => "arc"
  | .polycurve => "polycurve"
  | .rectangle => "rectangle"
  | .polyface => "polyface"
  | .text => "text"
  | .bbox => "bbox"
  | .name => "name"
  | .hide => "hide"
  | .unhide => "show"
  | .z => "z"
  | .tag => "tag"
  | .stroke => "stroke"
  | .fill => "fill"
  | .linestyle => "linestyle"
  | .opacity => "opacity"
  | .style => "style"
  | .add => "add"
  | .new => "new"
  | .fillet => "fillet"
  | .close => "close"
  | .explode => "explode"
  | .join => "join"
  | .translate => "translate"
  | .rotate => "rotate"
  | .scale => "scale"
  | .transform => "transform"
  | .orient => "orient"
  | .snap => "snap"

/-- The sketches among the arguments; missing ones are passed over. -/
def sketches (args : Args) : Except Error (List Node) :=
  ((List.range args.values.length).filter fun i => (args.get? i).isSome).mapM args.sketch

/-- Adds a child that holds one shape. -/
def draw (fresh : NodeId) (node : Node) (shape : Except Error Entity) : Except Error Node := do
  return node.add [.holding fresh [← shape]]

def restyle (node : Node) (change : Style → Except Error Style) : Except Error Node := do
  return { node with style := ← change node.style }

def move (node : Node) (motion : Except Error (Similarity Float)) : Except Error Node := do
  return node.transform (← motion)

def run (feature : Builtin) (fresh : NodeId) (node : Node) (values : List Value) : Except Error Node :=
  let args : Args := ⟨feature.label, values⟩
  match feature with
  | .point => draw fresh node (Shapes.point args)
  | .segment => draw fresh node (Shapes.segment args)
  | .circle => draw fresh node (Shapes.circle args)
  | .arc => draw fresh node (Shapes.arc args)
  | .polycurve => draw fresh node (Shapes.polycurve args)
  | .rectangle => draw fresh node (Shapes.rectangle args)
  | .polyface => draw fresh node (Shapes.polyface args)
  | .text => draw fresh node (Shapes.text args)
  | .bbox => draw fresh node (Shapes.bbox node)
  | .name => Labels.name node args
  | .hide => .ok (Labels.hide node)
  | .unhide => .ok (Labels.unhide node)
  | .z => Labels.z node args
  | .tag => Labels.tag node args
  | .stroke => restyle node (Styling.stroke · args)
  | .fill => restyle node (Styling.fill · args)
  | .linestyle => restyle node (Styling.linestyle · args)
  | .opacity => restyle node (Styling.opacity · args)
  | .style => restyle node (Styling.style · args)
  | .add => do return node.add (← sketches args)
  | .new => .ok (.empty fresh)
  | .fillet => Curves.fillet node args
  | .close => .ok (Curves.close node)
  | .explode => .ok (Curves.explode node)
  | .join => Curves.join fresh node
  | .translate => move node (Motions.translate args)
  | .rotate => move node (Motions.rotate args)
  | .scale => move node (Motions.scale args)
  | .transform => move node (Motions.transform args)
  | .orient => move node (Motions.orient args)
  | .snap => move node (Motions.snap args)

end Builtin

end Sketchwork
