/-
  Sketchwork.Builtin.Labels — names, visibility, drawing order and attributes.
-/
import Sketchwork.Builtin.Args

namespace Sketchwork.Labels

/-- `name(label)` -/
def name (node : Node) (args : Args) : Except Error Node := do
  return { node with name := ← args.text 0 }

/-- `hide()` -/
def hide (node : Node) : Node :=
  { node with hidden := true }

/-- `show()` -/
def unhide (node : Node) : Node :=
  { node with hidden := false }

/-- `z(order)` -/
def z (node : Node) (args : Args) : Except Error Node := do
  return { node with z := ← args.number 0 }

/-- `tag(key, value)`, the value true when it is missing, or `tag({key: value, …})` -/
def tag (node : Node) (args : Args) : Except Error Node :=
  match args.get? 0 with
  | some (.map entries) =>
    .ok (entries.foldl (fun node (key, value) => node.setAttribute key value.json.sorted) node)
  | _ => do
    let key ← args.text 0
    let value := match args.get? 1 with
      | some value => value.json.sorted
      | none => .bool true
    return node.setAttribute key value

end Sketchwork.Labels
