/-
  Sketchwork.Proofs.Scene.Levels — what walks visit, and in what order.

  A queue of pending nodes serves both walks. In level order it holds the rest of one level and
  in front of it nothing else: behind it come the children of what was taken, the start of the
  next level. So a walk passes all that is pending before anything below it (`walk_level`), and
  the levels are told apart by how deep a node is (`Node.row`).

  Proved: a walk in level order goes row by row (`traverse_level`) and one in pre-order the way a
  change of all nodes goes (`mapEntitiesM_visits`); a tree has as many nodes as its size says
  (`length_nodes`); a search tests the nodes up to its match (`firstMatch_of_found`), and the
  first entity of a scene is the first of its entities level by level (`firstEntity?_eq_head?`).
  `traversed` puts this together.
-/
import Sketchwork.Evaluation.Members
import Sketchwork.Proofs.Scene.Walks

namespace Sketchwork.Node

/-! ## Rows -/

/-- The nodes so many steps below a node, from left to right. -/
def row : Nat → Node → List Node
  | 0, node => [node]
  | depth + 1, node => node.children.flatMap (row depth)

/-- What is in front is visited first; its children queue up behind everything that is pending. -/
theorem walk_level_append (front behind : List Node) :
    walk .level (front ++ behind) = front ++ walk .level (behind ++ front.flatMap (·.children)) := by
  induction front generalizing behind with
  | nil => simp
  | cons node front ih =>
    rw [List.cons_append, walk, Order.enqueue, List.append_assoc, ih, List.flatMap_cons, List.append_assoc,
      List.cons_append]

/-- One level is done before the next begins. -/
theorem walk_level (pending : List Node) :
    walk .level pending = pending ++ walk .level (pending.flatMap (·.children)) := by
  simpa using walk_level_append pending []

theorem sizes_eq_add (pending : List Node) :
    sizes pending = pending.length + sizes (pending.flatMap (·.children)) := by
  induction pending with
  | nil => rfl
  | cons node pending ih =>
    rw [sizes, size_eq, List.flatMap_cons, sizes_append, List.length_cons]
    omega

/-- The levels of several trees side by side; a tree of so many nodes has no deeper ones. -/
theorem walk_level_rows {n : Nat} {pending : List Node} (h : sizes pending ≤ n) :
    walk .level pending = (List.range n).flatMap fun depth => pending.flatMap (row depth) := by
  induction n generalizing pending with
  | zero =>
    have hsize := sizes_eq_add pending
    have hnone : pending = [] := List.length_eq_zero_iff.mp (by omega)
    rw [hnone, walk]
    rfl
  | succ n ih =>
    have hsize := sizes_eq_add pending
    have hbelow : sizes (pending.flatMap (·.children)) ≤ n := by
      cases pending with
      | nil => exact Nat.zero_le _
      | cons => rw [List.length_cons] at hsize; omega
    have hfirst : pending.flatMap (row 0) = pending := List.flatMap_singleton' pending
    have hrest (depth : Nat) : pending.flatMap (row (depth + 1)) = (pending.flatMap (·.children)).flatMap (row depth) := by
      rw [List.flatMap_assoc]
      rfl
    rw [walk_level, ih hbelow, List.range_succ_eq_map, List.flatMap_cons, List.flatMap_map, hfirst]
    simp only [Nat.succ_eq_add_one, hrest]

/-- A walk in level order goes row by row. -/
theorem traverse_level (node : Node) :
    node.traverse .level = (List.range node.size).flatMap fun depth => row depth node := by
  have hsize : sizes [node] ≤ node.size := by
    simp [sizes]
  have h := walk_level_rows hsize
  simpa [traverse] using h

/-! ## Counting -/

theorem length_nodes (node : Node) : node.nodes.length = node.size := by
  have hall (pending : List Node) (h : ∀ n ∈ pending, n.nodes.length = n.size) :
      (pending.flatMap nodes).length = sizes pending := by
    induction pending with
    | nil => rfl
    | cons first pending ih =>
      obtain ⟨hfirst, hrest⟩ := List.forall_mem_cons.mp h
      rw [List.flatMap_cons, List.length_append, hfirst, ih hrest, sizes]
  induction node using ofChildren with
  | step node ih =>
    rw [nodes_eq, List.length_cons, hall _ ih, size_eq]
    omega

theorem traverse_pre (node : Node) : node.traverse .pre = node.nodes := by
  rw [traverse, walk_pre, List.flatMap_singleton]

theorem length_traverse (order : Order) (node : Node) : (node.traverse order).length = node.size := by
  rw [(traverse_perm order node).length_eq, length_nodes]

/-! ## Changing every node -/

section

variable {σ : Type} (visit : List Entity → StateM σ (List Entity))

mutual

/-- Changing all nodes goes through them in pre-order: what it leaves is left by the visits of
    the nodes in that order. -/
theorem mapEntitiesM_visits : ∀ (node : Node) (s : σ),
    (node.mapEntitiesM visit s).2 = node.nodes.foldl (fun s n => (visit n.entities s).2) s
  | ⟨_, _, _, _, _, _, entities, _, children⟩, s => by
    rw [nodes_eq, List.foldl_cons, ← mapNodesM_visits children]
    rfl

theorem mapNodesM_visits : ∀ (nodes : List Node) (s : σ),
    (mapNodesM visit nodes s).2 = (nodes.flatMap Node.nodes).foldl (fun s n => (visit n.entities s).2) s
  | [], _ => rfl
  | node :: nodes, s => by
    rw [List.flatMap_cons, List.foldl_append, ← mapEntitiesM_visits node, ← mapNodesM_visits nodes]
    rfl

end

end

/-! ## Searching -/

variable {test : Node → Bool}

theorem firstMatch_of_found {before : List Node} {node : Node} (hbefore : ∀ n ∈ before, test n = false)
    (hnode : test node = true) (after : List Node) :
    firstMatch test (before ++ node :: after) = (some node, before.length + 1) := by
  induction before with
  | nil => rw [List.nil_append, firstMatch, if_pos hnode]; rfl
  | cons first before ih =>
    obtain ⟨hfirst, hbefore⟩ := List.forall_mem_cons.mp hbefore
    rw [List.cons_append, firstMatch, if_neg (by simp [hfirst]), ih hbefore]
    rfl

theorem firstMatch_of_not_found {nodes : List Node} (h : ∀ n ∈ nodes, test n = false) :
    firstMatch test nodes = (none, nodes.length) := by
  induction nodes with
  | nil => rfl
  | cons first nodes ih =>
    obtain ⟨hfirst, hrest⟩ := List.forall_mem_cons.mp h
    rw [firstMatch, if_neg (by simp [hfirst]), ih hrest]
    rfl

/-- The first entity of the first node that owns any is the first of all entities. -/
theorem firstEntity?_eq_head? (node : Node) : node.firstEntity? = (node.subtreeEntities .level).head? := by
  have hlist (nodes : List Node) :
      (firstMatch (fun n => !n.entities.isEmpty) nodes).1.bind (·.entities.head?) =
        (nodes.flatMap (·.entities)).head? := by
    induction nodes with
    | nil => rfl
    | cons first nodes ih =>
      rw [firstMatch, List.flatMap_cons]
      cases hentities : first.entities with
      | nil => simpa [hentities] using ih
      | cons entity entities => simp [hentities]
  exact hlist _

theorem subtreeEntities_eq_nil_iff (order : Order) (node : Node) :
    node.subtreeEntities order = [] ↔ ∀ n ∈ node.nodes, n.entities = [] := by
  rw [subtreeEntities, List.flatMap_eq_nil_iff]
  exact forall_congr' fun n => imp_congr_left (traverse_perm order node).mem_iff

/-- `.shape` of a scene is its first entity. -/
theorem sketchMember_shape (node : Node) :
    Value.sketchMember node "shape" =
      ((node.subtreeEntities .level).head?.map fun entity => .entity entity).elim (.error .emptyShape) .ok := by
  rw [← firstEntity?_eq_head?]
  unfold Value.sketchMember
  cases node.firstEntity? <;> rfl

/-! ## Traversals -/

/-- Both orders visit every node of a tree once, and what reads a tree goes by them. -/
structure Traversed (node : Node) : Prop where
  pre : node.traverse .pre = node.nodes
  /-- A change of all nodes leaves what visiting them in pre-order leaves. -/
  changes {σ : Type} (visit : List Entity → StateM σ (List Entity)) (s : σ) :
    (node.mapEntitiesM visit s).2 = (node.traverse .pre).foldl (fun s n => (visit n.entities s).2) s
  level : node.traverse .level = (List.range node.size).flatMap fun depth => row depth node
  once (order : Order) : (node.traverse order).Perm node.nodes ∧ (node.traverse order).length = node.size
  count : node.count = node.size
  /-- The first match of the order is found, and it is the last node that was tested. -/
  found {order : Order} {test : Node → Bool} {before after : List Node} {hit : Node} :
    node.traverse order = before ++ hit :: after → (∀ n ∈ before, test n = false) → test hit = true →
      node.search test order = (some hit, before.length + 1)
  /-- Without a match all nodes were tested. -/
  missing {order : Order} {test : Node → Bool} : (∀ n ∈ node.nodes, test n = false) →
    node.search test order = (none, node.size)
  entities : node.subtreeEntities .pre = node.nodes.flatMap (·.entities) ∧
    node.subtreeEntities .level = (List.range node.size).flatMap fun depth => (row depth node).flatMap (·.entities)
  first : node.firstEntity? = (node.subtreeEntities .level).head?
  /-- A scene has no first entity exactly when no node owns one. -/
  shape : (∀ entity, (node.subtreeEntities .level).head? = some entity →
      Value.sketchMember node "shape" = .ok (.entity entity)) ∧
    (Value.sketchMember node "shape" = .error .emptyShape ↔ ∀ n ∈ node.nodes, n.entities = [])

theorem traversed (node : Node) : node.Traversed where
  pre := traverse_pre node
  changes visit s := by
    rw [traverse_pre]
    exact mapEntitiesM_visits visit node s
  level := traverse_level node
  once order := ⟨traverse_perm order node, length_traverse order node⟩
  count := length_traverse .pre node
  found {order test before after hit} hsplit hbefore hmatch := by
    rw [search, hsplit]
    exact firstMatch_of_found hbefore hmatch after
  missing {order test} h := by
    have hall : ∀ n ∈ node.traverse order, test n = false :=
      fun n hn => h n ((traverse_perm order node).mem_iff.mp hn)
    rw [search, firstMatch_of_not_found hall, length_traverse]
  entities := by
    constructor
    · rw [subtreeEntities, traverse_pre]
    · rw [subtreeEntities, traverse_level, List.flatMap_assoc]
  first := firstEntity?_eq_head? node
  shape := by
    rw [sketchMember_shape, ← subtreeEntities_eq_nil_iff .level]
    cases node.subtreeEntities .level with
    | nil => simp
    | cons entity entities => simp

end Sketchwork.Node
