/-
  Sketchwork.Proofs.Builtin.Joining — what joining makes of a scene.

  The pieces of a scene (`Node.pieces`) are its segments, its arcs of less than a full turn and its
  open curves, node by node. Joining takes them out of their nodes and leaves everything else
  (`Node.Cleared`); what they join to comes as the entities of one new child behind the others
  (`Curves.Joined`).

  Proved:
  - joining uses every piece once, edge by edge, and touches nothing else of the scene
    (`join_uses_every_piece_once`);
  - what is joined cannot be joined any further, so joining a scene once more leaves the open
    curves as they are (`join_is_maximal`);
  - a curve that comes back to a point at infinity stays open (`ends_at_infinity_stay_open`).
-/
import Sketchwork.Proofs.Builtin.WellFormed
import Sketchwork.Proofs.Geometry.Maximality

namespace Sketchwork

namespace Node

/-! ## Pieces of a scene -/

/-- All entities, a node before its children. -/
def allEntities (node : Node) : List Entity :=
  node.nodes.flatMap (·.entities)

/-- What a scene has for joining, in the order of its nodes. -/
def pieces (node : Node) : List Polycurve :=
  node.allEntities.filterMap Curves.joinable?

/-- The same nodes, with the entities in their order that are no pieces. -/
structure Cleared (node left : Node) : Prop where
  skeleton : left.skeleton = node.skeleton
  entities : left.nodes.map (·.entities) =
    node.nodes.map fun n => n.entities.filter fun e => (Curves.joinable? e).isNone

variable {node left : Node}

theorem subtreeEntities_pre (node : Node) : node.subtreeEntities .pre = node.allEntities := by
  unfold subtreeEntities traverse allEntities
  rw [walk_pre, List.flatMap_singleton]

theorem entities_mapEntities (f : List Entity → List Entity) (node : Node) :
    (node.mapEntities f).nodes.map (·.entities) = node.nodes.map (f ·.entities) := by
  induction node using ofChildren with
  | step node ih =>
    rw [mapEntities_eq, nodes_eq, nodes_eq, List.map_cons, List.map_cons, List.map_flatMap, List.map_flatMap,
      List.flatMap_map]
    exact congrArg _ (List.flatMap_congr ih)

theorem allEntities_add_holding (node : Node) (id : NodeId) (entities : List Entity) :
    (node.add [.holding id entities]).allEntities = node.allEntities ++ entities := by
  have hchild : (holding id entities).nodes = [holding id entities] := nodes_eq _
  unfold allEntities
  rw [nodes_eq, nodes_eq node]
  simp only [add, List.flatMap_cons, List.flatMap_append, List.flatMap_nil, hchild, List.append_nil, List.append_assoc]
  rfl

theorem Cleared.allEntities (h : node.Cleared left) :
    left.allEntities = node.allEntities.filter fun e => (Curves.joinable? e).isNone := by
  have hflat (node : Node) : node.allEntities = (node.nodes.map (·.entities)).flatten := List.flatMap_def
  rw [hflat, hflat, h.entities, List.filter_flatten, List.map_map]
  rfl

theorem Cleared.pieces (h : node.Cleared left) : left.pieces = [] := by
  rw [Node.pieces, h.allEntities, List.filterMap_eq_nil_iff]
  intro e he
  simpa using (List.mem_filter.mp he).2

theorem open_of_mem_pieces {piece : Polycurve} (h : piece ∈ node.pieces) : piece.WellFormed ∧ piece.closed = false := by
  obtain ⟨e, -, he⟩ := List.mem_filterMap.mp h
  exact Entity.open_of_joinable? he

end Node

namespace Curves

/-! ## Joining a scene -/

variable {fresh : NodeId} {node left : Node} {curves : List Polycurve}

/-- A scene without pieces is refused; from any other they are taken and their joined curves are put
    into a new child. -/
theorem join_cases (fresh : NodeId) (node : Node) :
    node.pieces = [] ∧ join fresh node = .error .emptyShape ∨
      node.pieces ≠ [] ∧ ∃ left, node.Cleared left ∧
        join fresh node = .ok (left.add [.holding fresh ((Polycurve.join node.pieces).map .polycurve)]) := by
  have hfound : (node.subtreeEntities .pre).filterMap joinable? = node.pieces := by
    rw [Node.subtreeEntities_pre]
    rfl
  unfold join
  dsimp only
  rw [hfound]
  by_cases hempty : node.pieces = []
  · exact .inl ⟨hempty, by rw [hempty]; rfl⟩
  · refine .inr ⟨hempty, _, ⟨Node.skeleton_mapEntities _ node, Node.entities_mapEntities _ node⟩, ?_⟩
    rw [if_neg (by simpa using hempty)]

theorem filterMap_joinable?_polycurve (hc : ∀ curve ∈ curves, curve.WellFormed) :
    (curves.map .polycurve).filterMap joinable? = curves.filter (!·.closed) := by
  rw [List.filterMap_map, ← List.filterMap_eq_filter]
  refine List.filterMap_congr fun curve hcurve => ?_
  have hlong := (hc curve hcurve).corners
  cases hclosed : curve.closed with
  | true => simp [joinable?, hclosed, Option.guard]
  | false => simp [joinable?, hclosed, Option.guard, hlong]

/-- Of a joined scene the open curves of its new child are left to join. -/
theorem pieces_of_joined (h : node.Cleared left) (hc : ∀ curve ∈ curves, curve.WellFormed) :
    (left.add [.holding fresh (curves.map .polycurve)]).pieces = curves.filter (!·.closed) := by
  have hleft : left.allEntities.filterMap joinable? = [] := h.pieces
  rw [Node.pieces, Node.allEntities_add_holding, List.filterMap_append, hleft, List.nil_append,
    filterMap_joinable?_polycurve hc]

/-- The pieces fall into groups, each piece in one of them, forwards or backwards; along each group
    runs one joined curve, edge by edge. In a scene the pieces leave their nodes, the joined curves come
    in one new child, and all else stays where it was; without a piece there is nothing to join. -/
theorem join_uses_every_piece_once :
    (∀ pieces : List Polycurve, (∀ piece ∈ pieces, piece.WellFormed) →
      ∃ groups : List (List Laid), (groups.flatten.map (·.piece)).Perm pieces ∧
        List.Forall₂ Strand.RunsAlong groups (Polycurve.join pieces) ∧
        ((Polycurve.join pieces).flatMap Polycurve.edges).length = (pieces.flatMap Polycurve.steps).length ∧
        ∀ piece ∈ pieces, piece.closed = false → piece.edges = piece.steps) ∧
    ∀ (fresh : NodeId) (node : Node) (values : List Value),
      (∀ piece ∈ node.pieces, piece.WellFormed ∧ piece.closed = false) ∧
      (node.pieces = [] ∧ Builtin.run .join fresh node values = .error .emptyShape ∨
        node.pieces ≠ [] ∧ ∃ left, node.Cleared left ∧ Builtin.run .join fresh node values =
          .ok (left.add [.holding fresh ((Polycurve.join node.pieces).map .polycurve)])) := by
  constructor
  · intro pieces hp
    obtain ⟨groups, hperm, halong⟩ := Polycurve.exists_groups hp
    refine ⟨groups, hperm, halong, Polycurve.length_edges_of_groups hperm halong, ?_⟩
    intro piece _ hopen
    exact Polycurve.edges_of_open hopen
  · intro fresh node values
    exact ⟨fun piece hpiece => Node.open_of_mem_pieces hpiece, join_cases fresh node⟩

/-- Two segments that meet, the second drawn towards the first: two edges. -/
theorem two_segments_used_once :
    let pieces := [Polycurve.straight [⟨0.0, 0.0⟩, ⟨1.0, 0.0⟩] false, Polycurve.straight [⟨1.0, 1.0⟩, ⟨1.0, 0.0⟩] false]
    ∃ groups : List (List Laid), (groups.flatten.map (·.piece)).Perm pieces ∧
      List.Forall₂ Strand.RunsAlong groups (Polycurve.join pieces) ∧
      ((Polycurve.join pieces).flatMap Polycurve.edges).length = 2 := by
  intro pieces
  have hp : ∀ piece ∈ pieces, piece.WellFormed :=
    List.forall_mem_cons.mpr ⟨Polycurve.wellFormed_straight (by decide) _,
      List.forall_mem_singleton.mpr (Polycurve.wellFormed_straight (by decide) _)⟩
  obtain ⟨groups, hperm, halong, hcount, -⟩ := join_uses_every_piece_once.1 pieces hp
  exact ⟨groups, hperm, halong, hcount⟩

/-- Among joined curves no end of an open one is within the tolerance of an end of a later one, and the
    two ends of one of more than two vertices are farther apart than the tolerance, unless their distance
    is no number; a curve is closed when what it is finished from came back to its first vertex. So
    joining a joined scene takes its open curves and puts them, as they are and in their order, into the
    new child. -/
theorem join_is_maximal :
    (∀ pieces : List Polycurve,
      ((Polycurve.join pieces).Pairwise fun earlier later =>
        earlier.closed = false → later.closed = false → Strand.EndsApart earlier.vertices later.vertices) ∧
      (∀ curve ∈ Polycurve.join pieces, curve.closed = false → 2 < curve.vertices.length →
        ∀ p q, curve.vertices.head? = some p → curve.vertices.getLast? = some q →
          Strand.tolerance < p.distance q ∨ (p.distance q).isNaN = true) ∧
      ∃ strands, (∀ s ∈ strands, Strand.Grown pieces s) ∧
        List.Forall₂ Strand.FinishedTo strands (Polycurve.join pieces)) ∧
    ∀ (fresh fresh' : NodeId) (node out : Node) (values values' : List Value),
      Builtin.run .join fresh node values = .ok out →
        let opened := (Polycurve.join node.pieces).filter (!·.closed)
        opened = [] ∧ Builtin.run .join fresh' out values' = .error .emptyShape ∨
          opened ≠ [] ∧ ∃ left, out.Cleared left ∧
            Builtin.run .join fresh' out values' = .ok (left.add [.holding fresh' (opened.map .polycurve)]) := by
  constructor
  · intro pieces
    refine ⟨Polycurve.pairwise_join pieces, ?_, ?_⟩
    · intro curve hc ho hlong p q hp hq
      exact Strand.apart_iff.mp (Polycurve.apart_of_open hc ho hlong hp hq)
    · obtain ⟨strands, hgrown, hfinished⟩ := Polycurve.exists_grown pieces
      refine ⟨strands, hgrown, ?_⟩
      rw [hfinished, List.forall₂_map_right_iff, List.forall₂_same]
      exact fun s _ => Strand.finishedTo_finish s
  · intro fresh fresh' node out values values' hrun opened
    have hwell : ∀ piece ∈ node.pieces, piece.WellFormed := fun piece hp => (Node.open_of_mem_pieces hp).1
    have hpieces : out.pieces = opened := by
      obtain ⟨-, herror⟩ | ⟨-, left, hleft, hok⟩ := join_cases fresh node
      · cases herror.symm.trans hrun
      · cases hok.symm.trans hrun
        exact pieces_of_joined hleft (Polycurve.wellFormed_of_mem_join hwell)
    have hagain := join_cases fresh' out
    rw [hpieces, Polycurve.join_open_join hwell] at hagain
    exact hagain

/-- Of three segments the second is drawn towards the end of the first and the third is far away. They
    join to two open curves, one of three vertices with ends apart. Joined again, both stay. -/
theorem three_segments_joined_again :
    let scene : Node := .holding ⟨0⟩ [.segment ⟨0.0, 0.0⟩ ⟨1.0, 0.0⟩, .segment ⟨2.0, 0.0⟩ ⟨1.0, 0.0⟩,
      .segment ⟨5.0, 0.0⟩ ⟨6.0, 0.0⟩]
    let longer : Polycurve := .straight [⟨0.0, 0.0⟩, ⟨1.0, 0.0⟩, ⟨2.0, 0.0⟩] false
    let other : Polycurve := .straight [⟨5.0, 0.0⟩, ⟨6.0, 0.0⟩] false
    Polycurve.join scene.pieces = [longer, other] ∧
      Strand.EndsApart longer.vertices other.vertices ∧
      (Strand.tolerance < Point.distance ⟨0.0, 0.0⟩ ⟨2.0, 0.0⟩ ∨
        (Point.distance ⟨0.0, 0.0⟩ ⟨2.0, 0.0⟩ : Float).isNaN = true) ∧
      ∃ out left : Node, Builtin.run .join ⟨1⟩ scene [] = .ok out ∧
        Builtin.run .join ⟨2⟩ out [] = .ok (left.add [.holding ⟨2⟩ [.polycurve longer, .polycurve other]]) := by
  intro scene longer other
  have hpieces : scene.pieces = [.straight [⟨0.0, 0.0⟩, ⟨1.0, 0.0⟩] false, .straight [⟨2.0, 0.0⟩, ⟨1.0, 0.0⟩] false, other] := by
    unfold Node.pieces Node.allEntities
    rw [Node.nodes_eq]
    rfl
  have hjoin : Polycurve.join scene.pieces = [longer, other] := by
    have hother : Polycurve.join [other] = [other] :=
      Polycurve.join_of_apart (List.pairwise_singleton _ _) (List.forall_mem_singleton.mpr rfl)
    rw [hpieces, Polycurve.join_of_extend? rfl (show _ = some (.ofCurve longer, [other]) from rfl) rfl, hother]
    rfl
  have hmaximal := join_is_maximal.1 scene.pieces
  rw [hjoin] at hmaximal
  obtain ⟨hpairs, hends, -⟩ := hmaximal
  refine ⟨hjoin, (List.pairwise_cons.mp hpairs).1 other (List.mem_singleton.mpr rfl) rfl rfl,
    hends longer List.mem_cons_self rfl (by decide) _ _ rfl rfl, ?_⟩
  obtain ⟨hnone, -⟩ | ⟨-, out, -, hrun⟩ := join_cases ⟨1⟩ scene
  · rw [hpieces] at hnone
    cases hnone
  · have hagain := join_is_maximal.2 ⟨1⟩ ⟨2⟩ _ _ [] [] hrun
    rw [hjoin] at hagain hrun
    obtain ⟨hnone, -⟩ | ⟨-, left, -, hleft⟩ := hagain
    · cases hnone
    · exact ⟨_, left, hrun, hleft⟩

/-- Two segments between the origin and a point at infinity join to a curve that comes back to where it
    began and stays open: the distance of its ends is no number. -/
theorem ends_at_infinity_stay_open :
    let far : Position := ⟨1.0 / 0.0, 0.0⟩
    let origin : Position := ⟨0.0, 0.0⟩
    let curve : Polycurve := .straight [far, origin, far] false
    Polycurve.join [.straight [far, origin] false, .straight [origin, far] false] = [curve] ∧
      curve.closed = false ∧ 2 < curve.vertices.length ∧
      curve.vertices.head? = some far ∧ curve.vertices.getLast? = some far ∧ ¬ Strand.tolerance < far.distance far := by
  refine ⟨?_, rfl, by decide, rfl, rfl, by decide⟩
  exact (Polycurve.join_of_extend? rfl rfl rfl).trans (by rw [Polycurve.join]; rfl)

end Curves

end Sketchwork
