/-
  Sketchwork.Export.Structured — drawings as JSON, without what is hidden.
-/
import Sketchwork.Scene.Description

namespace Sketchwork.Export.Structured

mutual

/-- The scene without its hidden nodes; none when the root is hidden. -/
def visible : Node → Option Node
  | ⟨id, name, provenance, hidden, z, style, entities, attributes, children⟩ =>
    if hidden then none
    else some ⟨id, name, provenance, hidden, z, style, entities, attributes, visibleAll children⟩

def visibleAll : List Node → List Node
  | [] => []
  | node :: nodes => (visible node).toList ++ visibleAll nodes

end

def render (pretty : Bool) (root : Node) : String :=
  let json : Json := (visible root).elim .null Node.json
  if pretty then json.pretty else json.compact

end Sketchwork.Export.Structured
