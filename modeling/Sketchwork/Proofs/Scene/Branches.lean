/-
  Sketchwork.Proofs.Scene.Branches — the nodes of a scene, each with the nodes above it.

  What is drawn of a scene depends on whole paths: a node is shown when no node on its path
  to the root is hidden. `Node.branches` lists all nodes as they stand in the tree,
  `Node.shown` the shown ones in drawing order, a node before those below it and children
  by their places.

  Proved: the second list is a rearrangement of the visible part of the first
  (`shown_perm`), and a node draws exactly when it is shown and has an entity, or a child
  of it draws (`draws_eq`).
-/
import Mathlib.Data.List.Perm.Basic
import Sketchwork.Proofs.Scene.Order

namespace Sketchwork

/-- A node and the nodes above it, the nearest first. -/
structure Branch where
  node : Node
  above : List Node

namespace Branch

/-- The path from the node itself up to the root. -/
def nodes (b : Branch) : List Node :=
  b.node :: b.above

/-- No node of the path is hidden. -/
def visible (b : Branch) : Bool :=
  b.nodes.all (!·.hidden)

end Branch

namespace Node

mutual

/-- Every node of a tree that stands below `above`. -/
def branches (above : List Node) : Node → List Branch
  | ⟨id, name, provenance, hidden, z, style, entities, attributes, children⟩ =>
    let node : Node := ⟨id, name, provenance, hidden, z, style, entities, attributes, children⟩
    ⟨node, above⟩ :: branchesAll (node :: above) children

def branchesAll (above : List Node) : List Node → List Branch
  | [] => []
  | node :: nodes => branches above node ++ branchesAll above nodes

end

/-- The nodes that are not hidden by themselves or by a node above them, in drawing order. -/
def shown (above : List Node) (node : Node) : List Branch :=
  if node.hidden then []
  else ⟨node, above⟩ :: node.childrenByZ.attach.flatMap fun child => shown (node :: above) child.1
termination_by node.size
decreasing_by exact size_lt_of_mem (mem_childrenByZ.mp child.2)

/-- An entity is shown in the node or below it. -/
def draws (node : Node) : Bool :=
  (node.shown []).any fun b => !b.node.entities.isEmpty

variable (above : List Node) (node : Node)

theorem shown_of_hidden {node : Node} (h : node.hidden = true) : node.shown above = [] := by
  rw [shown, if_pos h]

theorem shown_of_visible {node : Node} (h : node.hidden = false) :
    node.shown above = ⟨node, above⟩ :: node.childrenByZ.flatMap (shown (node :: above)) := by
  rw [shown, if_neg (by simp [h])]
  simp only [List.flatMap_subtype, List.unattach_attach]

theorem branchesAll_eq (nodes : List Node) : branchesAll above nodes = nodes.flatMap (branches above) := by
  induction nodes with
  | nil => rfl
  | cons node nodes ih => rw [branchesAll, ih, List.flatMap_cons]

theorem branches_eq : node.branches above = ⟨node, above⟩ :: node.children.flatMap (branches (node :: above)) := by
  cases node
  rw [branches, branchesAll_eq]

/-- A path leads through all that it started from. -/
theorem mem_nodes_of_mem_branches {above : List Node} {node : Node} {b : Branch} (h : b ∈ node.branches above) :
    ∀ n ∈ node :: above, n ∈ b.nodes := by
  induction node using ofChildren generalizing above with
  | step node ih =>
    rw [branches_eq] at h
    rcases List.mem_cons.mp h with rfl | h
    · exact fun n hn => hn
    · obtain ⟨child, hc, h⟩ := List.mem_flatMap.mp h
      exact fun n hn => ih child hc h n (List.mem_cons_of_mem _ hn)

/-- The shown nodes are those with no hidden node on their path, each of them once. -/
theorem shown_perm {above : List Node} (h : ∀ n ∈ above, n.hidden = false) (node : Node) :
    (node.shown above).Perm ((node.branches above).filter Branch.visible) := by
  induction node using ofChildren generalizing above with
  | step node ih =>
    by_cases hn : node.hidden = true
    · -- Every path from below leads through the hidden node.
      rw [shown_of_hidden above hn, List.filter_eq_nil_iff.mpr]
      intro b hb hv
      have := List.all_eq_true.mp hv node (mem_nodes_of_mem_branches hb node List.mem_cons_self)
      simp [hn] at this
    · have hn : node.hidden = false := by simpa using hn
      have hall : ∀ n ∈ node :: above, n.hidden = false := List.forall_mem_cons.mpr ⟨hn, h⟩
      have hv : Branch.visible ⟨node, above⟩ = true := by simpa [Branch.visible, Branch.nodes] using hall
      rw [shown_of_visible above hn, branches_eq, List.filter_cons_of_pos hv, List.filter_flatMap]
      exact .cons _ (node.childrenByZ_perm.flatMap fun child hc => ih child (mem_childrenByZ.mp hc) hall)

/-- Which nodes are shown does not depend on where the tree stands. -/
theorem map_node_shown : (node.shown above).map Branch.node = (node.shown []).map Branch.node := by
  induction node using ofChildren generalizing above with
  | step node ih =>
    cases h : node.hidden with
    | true => rw [shown_of_hidden _ h, shown_of_hidden _ h]
    | false =>
      rw [shown_of_visible _ h, shown_of_visible _ h, List.map_cons, List.map_cons, List.map_flatMap, List.map_flatMap]
      congr 1
      refine List.flatMap_congr fun child hc => ?_
      rw [ih child (mem_childrenByZ.mp hc) (node :: above), ih child (mem_childrenByZ.mp hc) [node]]

theorem any_shown : (node.shown above).any (fun b => !b.node.entities.isEmpty) = node.draws := by
  have of_nodes (bs : List Branch) : bs.any (fun b => !b.node.entities.isEmpty) =
      (bs.map Branch.node).any fun n => !n.entities.isEmpty := by
    rw [List.any_map]
    rfl
  rw [draws, of_nodes, of_nodes, map_node_shown]

theorem draws_eq : node.draws = (!node.hidden && (!node.entities.isEmpty || node.childrenByZ.any draws)) := by
  cases h : node.hidden with
  | true => rw [draws, shown_of_hidden _ h]; rfl
  | false =>
    rw [draws, shown_of_visible _ h, List.any_cons, List.any_flatMap]
    simp only [any_shown, Bool.not_false, Bool.true_and]

theorem visible_of_draws {node : Node} (h : node.draws = true) : node.hidden = false := by
  rw [draws_eq, Bool.and_eq_true, Bool.not_eq_true'] at h
  exact h.1

theorem entities_of_not_draws {node : Node} (hv : node.hidden = false) (h : node.draws = false) :
    node.entities = [] := by
  rw [draws_eq, hv] at h
  simp only [Bool.not_false, Bool.true_and, Bool.or_eq_false_iff, Bool.not_eq_false', List.isEmpty_iff] at h
  exact h.1

theorem draws_of_mem_shown {above : List Node} {node : Node} {b : Branch} (hb : b ∈ node.shown above)
    (h : b.node.draws = true) : node.draws = true := by
  induction node using ofChildren generalizing above with
  | step node ih =>
    cases hn : node.hidden with
    | true => rw [shown_of_hidden _ hn] at hb; cases hb
    | false =>
      rw [shown_of_visible _ hn] at hb
      rcases List.mem_cons.mp hb with rfl | hb
      · exact h
      · obtain ⟨child, hc, hb⟩ := List.mem_flatMap.mp hb
        rw [draws_eq, hn, List.any_eq_true.mpr ⟨child, hc, ih child (mem_childrenByZ.mp hc) hb⟩, Bool.or_true]
        rfl

theorem mem_shown {root : Node} {b : Branch} : b ∈ root.shown [] ↔ b ∈ root.branches [] ∧ b.visible = true := by
  rw [(shown_perm (by simp) root).mem_iff, List.mem_filter]

/-- A node draws when there is an entity below it on a path that nothing hides. -/
theorem draws_iff {node : Node} :
    node.draws = true ↔ ∃ b ∈ node.branches [], b.visible = true ∧ b.node.entities ≠ [] := by
  simp only [draws, List.any_eq_true, mem_shown, Bool.not_eq_true', List.isEmpty_eq_false_iff, and_assoc]

end Node

end Sketchwork
