/-
  Sketchwork.Proofs.Scene.Walks — walks visit the nodes of a tree, and what all entities are.

  `Node.nodes` lists a tree by recursion, a node before its children. A walk takes nodes from a
  queue, so it is compared with the trees that are pending: in pre-order it is their lists one
  behind the other, in level order a rearrangement of these. `Node.Every p` says of a scene that
  all its entities pass a test, whatever the order they are listed in.

  Proved: a walk in pre-order is the recursive list (`walk_pre`) and any walk a permutation of
  it (`walk_perm`); `Every` is a property of the root's entities and of the children
  (`every_iff`), which the ways of building and changing scenes keep.
-/
import Mathlib.Data.List.Perm.Basic
import Sketchwork.Proofs.Results
import Sketchwork.Proofs.Scene.Order

namespace Sketchwork.Node

/-! ## Walks -/

mutual

/-- A node and all below it, a node before its children. -/
def nodes : Node → List Node
  | ⟨id, name, provenance, hidden, z, style, entities, attributes, children⟩ =>
    ⟨id, name, provenance, hidden, z, style, entities, attributes, children⟩ :: nodesAll children

def nodesAll : List Node → List Node
  | [] => []
  | node :: rest => nodes node ++ nodesAll rest

end

theorem nodesAll_eq (pending : List Node) : nodesAll pending = pending.flatMap nodes := by
  induction pending with
  | nil => rfl
  | cons node pending ih => rw [nodesAll, ih, List.flatMap_cons]

theorem nodes_eq (node : Node) : node.nodes = node :: node.children.flatMap nodes := by
  cases node
  rw [nodes, nodesAll_eq]

theorem walk_pre (pending : List Node) : walk .pre pending = pending.flatMap nodes := by
  induction pending using walk.induct .pre with
  | case1 => rw [walk]; rfl
  | case2 node pending ih =>
    rw [walk, ih, Order.enqueue, List.flatMap_append, List.flatMap_cons, nodes_eq]
    rfl

/-- Every node is visited, and as often as it stands in the tree. -/
theorem walk_perm (order : Order) (pending : List Node) : (walk order pending).Perm (pending.flatMap nodes) := by
  induction pending using walk.induct order with
  | case1 => rw [walk]; exact .nil
  | case2 node pending ih =>
    rw [walk, List.flatMap_cons, nodes_eq, List.cons_append]
    refine .cons node (ih.trans ?_)
    cases order with
    | level =>
      rw [Order.enqueue, List.flatMap_append]
      exact List.perm_append_comm
    | pre =>
      rw [Order.enqueue, List.flatMap_append]

theorem traverse_perm (order : Order) (node : Node) : (node.traverse order).Perm node.nodes := by
  have h := walk_perm order [node]
  rwa [List.flatMap_cons, List.flatMap_nil, List.append_nil] at h

/-! ## Entities -/

/-- All entities of the scene are such. -/
def Every (p : Entity → Prop) (node : Node) : Prop :=
  ∀ n ∈ node.nodes, ∀ e ∈ n.entities, p e

variable {p : Entity → Prop} {node out : Node}

theorem every_iff : node.Every p ↔ (∀ e ∈ node.entities, p e) ∧ ∀ child ∈ node.children, child.Every p := by
  unfold Every
  rw [nodes_eq, List.forall_mem_cons]
  refine and_congr_right fun _ => ?_
  constructor
  · intro h child hc n hn
    exact h n (List.mem_flatMap.mpr ⟨child, hc, hn⟩)
  · intro h n hn
    obtain ⟨child, hc, hn⟩ := List.mem_flatMap.mp hn
    exact h child hc n hn

theorem Every.of_mem_subtreeEntities (h : node.Every p) {order : Order} {e : Entity}
    (he : e ∈ node.subtreeEntities order) : p e := by
  obtain ⟨n, hn, he⟩ := List.mem_flatMap.mp he
  exact h n ((node.traverse_perm order).mem_iff.mp hn) e he

theorem Every.of_firstEntity? (h : node.Every p) {e : Entity} (he : node.firstEntity? = some e) : p e := by
  have found {nodes : List Node} {n : Node} (test : Node → Bool) (hn : (firstMatch test nodes).1 = some n) :
      n ∈ nodes := by
    induction nodes with
    | nil => cases hn
    | cons first nodes ih =>
      rw [firstMatch] at hn
      split at hn
      · cases hn
        exact List.mem_cons_self
      · exact List.mem_cons_of_mem _ (ih hn)
  obtain ⟨n, hn, he⟩ := Option.bind_eq_some_iff.mp he
  exact h n ((node.traverse_perm .level).mem_iff.mp (found _ hn)) e (List.mem_of_mem_head? he)

theorem every_holding (id : NodeId) {entities : List Entity} (h : ∀ e ∈ entities, p e) :
    (holding id entities).Every p :=
  every_iff.mpr ⟨h, nofun⟩

theorem every_empty (id : NodeId) : (empty id).Every p :=
  every_holding id nofun

theorem Every.add (h : node.Every p) {added : List Node} (ha : ∀ n ∈ added, n.Every p) :
    (node.add added).Every p := by
  obtain ⟨he, hc⟩ := every_iff.mp h
  refine every_iff.mpr ⟨he, fun child hchild => ?_⟩
  rcases List.mem_append.mp hchild with hchild | hchild
  · exact hc child hchild
  · exact ha child hchild

/-- Only entities and children count. -/
theorem Every.congr (h : node.Every p) (he : out.entities = node.entities) (hc : out.children = node.children) :
    out.Every p := by
  rw [every_iff] at h ⊢
  rwa [he, hc]

theorem Every.mapEntities (h : node.Every p) {f : List Entity → List Entity}
    (hf : ∀ es, (∀ e ∈ es, p e) → ∀ e ∈ f es, p e) : (node.mapEntities f).Every p := by
  induction node using ofChildren with
  | step node ih =>
    obtain ⟨he, hc⟩ := every_iff.mp h
    rw [mapEntities_eq]
    refine every_iff.mpr ⟨hf _ he, fun child hchild => ?_⟩
    obtain ⟨old, hold, rfl⟩ := List.mem_map.mp hchild
    exact ih old hold (hc old hold)

mutual

theorem Every.of_mapEntitiesM {f : List Entity → Except Error (List Entity)}
    (hf : ∀ es es', f es = .ok es' → (∀ e ∈ es, p e) → ∀ e ∈ es', p e) :
    ∀ {node out : Node}, node.Every p → node.mapEntitiesM f = .ok out → out.Every p
  | ⟨_, _, _, _, _, _, entities, _, children⟩, out, h, hout => by
    obtain ⟨he, hc⟩ := every_iff.mp h
    obtain ⟨entities', hes, hout⟩ := exists_of_bind_eq_ok hout
    obtain ⟨children', hcs, hout⟩ := exists_of_bind_eq_ok hout
    cases hout
    exact every_iff.mpr ⟨hf _ _ hes he, every_of_mapNodesM hf hc hcs⟩

theorem every_of_mapNodesM {f : List Entity → Except Error (List Entity)}
    (hf : ∀ es es', f es = .ok es' → (∀ e ∈ es, p e) → ∀ e ∈ es', p e) :
    ∀ {nodes outs : List Node}, (∀ n ∈ nodes, n.Every p) → mapNodesM f nodes = .ok outs → ∀ n ∈ outs, n.Every p
  | [], outs, _, hout => by cases hout; nofun
  | node :: nodes, outs, h, hout => by
    obtain ⟨hn, hns⟩ := List.forall_mem_cons.mp h
    obtain ⟨out, ho, hout⟩ := exists_of_bind_eq_ok hout
    obtain ⟨outs', hos, hout⟩ := exists_of_bind_eq_ok hout
    cases hout
    exact List.forall_mem_cons.mpr ⟨Every.of_mapEntitiesM hf hn ho, every_of_mapNodesM hf hns hos⟩

end

end Sketchwork.Node
