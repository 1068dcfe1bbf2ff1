/-
  Sketchwork.Proofs.Scene.Pruning — scenes without their hidden nodes.

  `Node.pruned` takes every hidden node below the root away, with all that is below it. Trees
  agree (`Node.Agrees`) when they differ in nothing but such nodes, wherever these stand
  among the others.

  Proved: children in drawing order are the same after pruning (`childrenByZ_pruned`);
  trees that agree are both hidden or the same tree after pruning
  (`hidden_or_pruned_eq_of_agrees`).
-/
import Sketchwork.Proofs.Scene.Order

namespace Sketchwork.Node

mutual

/-- The tree without its hidden nodes; the root stays. -/
def pruned : Node → Node
  | ⟨id, name, provenance, hidden, z, style, entities, attributes, children⟩ =>
    ⟨id, name, provenance, hidden, z, style, entities, attributes, prunedAll children⟩

def prunedAll : List Node → List Node
  | [] => []
  | node :: nodes => if node.hidden then prunedAll nodes else pruned node :: prunedAll nodes

end

/-- Rows of nodes that differ only in hidden nodes and what is below these. -/
inductive AgreesAll : List Node → List Node → Prop
  | nil : AgreesAll [] []
  | shown {id name provenance z style entities attributes children children' nodes nodes'} :
      AgreesAll children children' → AgreesAll nodes nodes' →
      AgreesAll (⟨id, name, provenance, false, z, style, entities, attributes, children⟩ :: nodes)
        (⟨id, name, provenance, false, z, style, entities, attributes, children'⟩ :: nodes')
  | left {node nodes nodes'} : node.hidden = true → AgreesAll nodes nodes' → AgreesAll (node :: nodes) nodes'
  | right {node nodes nodes'} : node.hidden = true → AgreesAll nodes nodes' → AgreesAll nodes (node :: nodes')

def Agrees (a b : Node) : Prop :=
  AgreesAll [a] [b]

variable (node : Node)

@[simp] theorem hidden_pruned : node.pruned.hidden = node.hidden := by
  cases node; rfl

@[simp] theorem z_pruned : node.pruned.z = node.z := by
  cases node; rfl

@[simp] theorem style_pruned : node.pruned.style = node.style := by
  cases node; rfl

@[simp] theorem entities_pruned : node.pruned.entities = node.entities := by
  cases node; rfl

theorem prunedAll_eq (nodes : List Node) : prunedAll nodes = (nodes.filter (!·.hidden)).map pruned := by
  induction nodes with
  | nil => rfl
  | cons node nodes ih =>
    rw [prunedAll]
    by_cases h : node.hidden = true
    · rw [if_pos h, List.filter_cons_of_neg (by simp [h]), ih]
    · rw [if_neg h, List.filter_cons_of_pos (by simp [h]), ih, List.map_cons]

theorem children_pruned : node.pruned.children = (node.children.filter (!·.hidden)).map pruned := by
  cases node
  exact prunedAll_eq _

/-- Hidden nodes take no part in the order of the others. -/
theorem childrenByZ_pruned : node.pruned.childrenByZ = (node.childrenByZ.filter (!·.hidden)).map pruned := by
  rw [filter_childrenByZ, childrenByZ, children_pruned]
  refine (List.map_mergeSort fun a _ b _ => ?_).symm
  rw [z_pruned, z_pruned]

/-- Nothing is left to take away. -/
theorem pruned_pruned : node.pruned.pruned = node.pruned := by
  induction node using ofChildren with
  | step node ih =>
    obtain ⟨id, name, provenance, hidden, z, style, entities, attributes, children⟩ := node
    have h : (children.filter (!·.hidden)).map (pruned ∘ pruned) = (children.filter (!·.hidden)).map pruned :=
      List.map_congr_left fun child hc => ih child (List.mem_filter.mp hc).1
    simp only [pruned, prunedAll_eq, List.filter_map, List.map_map, Function.comp_def, hidden_pruned, List.filter_filter,
      Bool.and_self] at h ⊢
    rw [h]

theorem prunedAll_eq_of_agreesAll {as bs : List Node} (h : AgreesAll as bs) : prunedAll as = prunedAll bs := by
  induction h with
  | nil => rfl
  | shown _ _ below beside => simp only [prunedAll, pruned, below, beside]
  | left h _ ih => rw [prunedAll, if_pos h, ih]
  | right h _ ih => rw [prunedAll, if_pos h, ih]

theorem hidden_or_pruned_eq_of_agrees {a b : Node} (h : Agrees a b) :
    (a.hidden = true ∧ b.hidden = true) ∨ (a.hidden = false ∧ b.hidden = false ∧ a.pruned = b.pruned) := by
  have h := prunedAll_eq_of_agreesAll h
  cases ha : a.hidden <;> cases hb : b.hidden <;> simp_all [prunedAll]

end Sketchwork.Node
