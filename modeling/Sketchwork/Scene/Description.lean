/-
  Sketchwork.Scene.Description — scenes as JSON values.

  What is unset, empty or zero is left out, the id and the feature of a node never.
-/
import Sketchwork.Scene.Node

namespace Sketchwork

def Point.json (p : Position) : Json :=
  .object [("x", .ofFloat p.x), ("y", .ofFloat p.y)]

def Polycurve.fields (curve : Polycurve) : List (String × Json) :=
  [("vertices", .array (curve.vertices.map Point.json)),
    ("bulges", .array (curve.bulges.map .ofFloat)),
    ("closed", .bool curve.closed)]

def Entity.json (entity : Entity) : Json :=
  let fields := match entity with
    | .point p => [("position", p.json)]
    | .segment p q => [("start", p.json), ("end", q.json)]
    | .circle c r => [("center", c.json), ("radius", .ofFloat r)]
    | .arc a =>
      [("center", a.center.json), ("radius", .ofFloat a.radius),
        ("start_angle", .ofFloat a.startAngle), ("end_angle", .ofFloat a.endAngle)]
    | .polycurve curve => curve.fields
    | .polyface loops => [("loops", .array (loops.map fun curve => .object curve.fields))]
    | .text c =>
      [("position", c.position.json), ("content", .text c.content), ("size", .ofFloat c.size),
        ("rotation", .ofFloat c.rotation)]
  .object (("type", .text entity.kind) :: fields)

/-- The field for a property that is set. -/
def Json.setField {α : Type} (key : String) (f : α → Json) (value : Option α) : List (String × Json) :=
  (value.map fun x => (key, f x)).toList

def Stroke.json (s : Stroke) : Json :=
  .object (Json.setField "color" (fun c => .text c.text) s.color
    ++ Json.setField "width" .ofFloat s.width
    ++ Json.setField "pattern" (fun p => .text p.name) s.pattern
    ++ Json.setField "opacity" .ofFloat s.opacity
    ++ Json.setField "scaled" .bool s.scaled)

def Fill.json (f : Fill) : Json :=
  .object (Json.setField "color" (fun c => .text c.text) f.color
    ++ Json.setField "opacity" .ofFloat f.opacity)

def Style.json (s : Style) : Json :=
  .object ((if s.stroke.isEmpty then [] else [("stroke", s.stroke.json)])
    ++ (if s.fill.isEmpty then [] else [("fill", s.fill.json)])
    ++ Json.setField "opacity" .ofFloat s.opacity)

namespace Node

mutual

def json : Node → Json
  | ⟨id, name, provenance, hidden, z, style, entities, attributes, children⟩ =>
    .object ([("id", .text id.text)]
      ++ (if name.isEmpty then [] else [("name", .text name)])
      ++ [("feature", match provenance.feature? with
        | some feature => .text feature
        | none => .null)]
      ++ (if hidden then [("hidden", .bool true)] else [])
      ++ (if z == 0.0 then [] else [("z", .ofFloat z)])
      ++ (if style.isEmpty then [] else [("style", style.json)])
      ++ (if entities.isEmpty then [] else [("entities", .array (entities.map Entity.json))])
      ++ (if attributes.isEmpty then [] else [("attributes", .object attributes)])
      ++ (if children.isEmpty then [] else [("children", .array (jsonNodes children))]))

def jsonNodes : List Node → List Json
  | [] => []
  | node :: nodes => json node :: jsonNodes nodes

end

end Node

end Sketchwork
