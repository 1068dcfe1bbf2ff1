/-
  Sketchwork.Proofs.Export.Groups — the group of a node from the groups of its children.

  Groups are put in order together with the places of their nodes. Here the nodes are put in
  order first: a visible node draws its own shapes and then the groups of its children in
  drawing order, and is no group when this is nothing.

  Proved: groups put in order are the groups of nodes put in order (`mergeSort_groups`), so
  that one group follows the law above (`group_eq`).
-/
import Sketchwork.Export.Svg
import Sketchwork.Proofs.Scene.Order

namespace Sketchwork.Export.Svg

variable (settings : Settings)

/-- What a node with a settled style draws: its own shapes, then the groups of its children. -/
def contents (style : Style) (node : Node) : List Markup :=
  node.entities.map (shape settings style) ++ node.childrenByZ.filterMap (group settings · style)

theorem groups_eq_map (nodes : List Node) (parent : Style) :
    groups settings nodes parent = nodes.map fun node => (node.z, group settings node parent) := by
  induction nodes with
  | nil => rfl
  | cons node nodes ih => rw [groups, ih, List.map_cons]

theorem mergeSort_groups (nodes : List Node) (parent : Style) :
    ((groups settings nodes parent).mergeSort fun a b => Real64.totalLe a.1 b.1).filterMap (·.2) =
      (nodes.mergeSort fun a b => Real64.totalLe a.z b.z).filterMap (group settings · parent) := by
  have sorted : (nodes.mergeSort fun a b => Real64.totalLe a.z b.z).map (fun node => (node.z, group settings node parent)) =
      (nodes.map fun node => (node.z, group settings node parent)).mergeSort fun a b => Real64.totalLe a.1 b.1 :=
    List.map_mergeSort fun a _ b _ => rfl
  rw [groups_eq_map, ← sorted, List.filterMap_map]
  rfl

theorem group_eq (node : Node) (parent : Style) :
    group settings node parent =
      if node.hidden then none
      else if (contents settings (node.style.withDefaults parent) node).isEmpty then none
      else some (.element "g" (groupAttributes node) (contents settings (node.style.withDefaults parent) node)) := by
  obtain ⟨id, name, provenance, hidden, z, style, entities, attributes, children⟩ := node
  simp only [group, mergeSort_groups]
  rfl

end Sketchwork.Export.Svg
