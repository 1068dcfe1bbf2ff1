/-
  Sketchwork.Proofs.Builtin.Exploding — curves taken apart and joined again.

  A curve of straight edges is taken apart to the segments along its vertices, one after the other
  (`Polycurve.segments`), back to the first vertex if it is closed. Joined again, the strand is after
  every step the way along the vertices so far: the next segment begins where the strand ends, so it is
  the first piece that fits (`grow_segments_step`), and this goes on until a vertex meets the first.

  Proved: taken apart and joined again, a curve of straight edges comes back if and only if no vertex
  from the third on meets the first (`join_explode`); vertices of finite coordinates meet
  themselves (`Point.meets_self_of_finite`).
-/
import Sketchwork.Proofs.Builtin.Joining

namespace Sketchwork

/-- The difference of a point from itself has no length. -/
theorem Point.meets_self_of_finite {p : Position} (hx : p.x.isFinite = true) (hy : p.y.isFinite = true) :
    p.distance p ≤ Strand.tolerance := by
  have hsub : p.sub p = ⟨0.0, 0.0⟩ := by
    rw [Point.sub, Real64.sub_self_of_finite hx, Real64.sub_self_of_finite hy]
  rw [Point.distance, hsub]
  decide

/-! ## Segments along vertices -/

namespace Polycurve

/-- The segments from each vertex to the next. -/
def segments : List Position → List Polycurve
  | p :: q :: rest => straight [p, q] false :: segments (q :: rest)
  | _ => []

theorem segments_singleton (p : Position) : segments [p] = [] :=
  rfl

/-- The vertices in the order of the edges, back to the first one in a closed curve. -/
def way (curve : Polycurve) : List Position :=
  if curve.closed then curve.vertices ++ curve.vertices.head?.toList else curve.vertices

theorem way_straight (vertices : List Position) (closed : Bool) :
    way (straight vertices closed) = if closed then vertices ++ vertices.head?.toList else vertices := by
  rw [way, straight, vertices_ofBulges]
  rfl

theorem segments_edgesAlong (corners : List Corner) :
    (edgesAlong corners).map (fun e => straight [e.start, e.stop] false) = segments (corners.map (·.position)) := by
  induction corners using edgesAlong.induct with
  | case1 c d rest ih => rw [edgesAlong, List.map_cons, ih]; rfl
  | case2 corners hshort =>
    rcases corners with _ | ⟨c, _ | ⟨d, rest⟩⟩
    · rfl
    · rfl
    · exact absurd rfl (hshort c d rest)

theorem segments_edges {curve : Polycurve} (h : 2 ≤ curve.vertices.length) :
    curve.edges.map (fun e => straight [e.start, e.stop] false) = segments curve.way := by
  obtain ⟨corners, closed⟩ := curve
  match corners, h with
  | c :: d :: rest, _ =>
    show (edgesAlong _).map _ = _
    rw [segments_edgesAlong]
    cases closed with
    | true => exact congrArg segments List.map_append
    | false => rfl

theorem cornersOf_replicate_zero (vertices : List Position) (n : Nat) :
    cornersOf vertices (List.replicate n 0.0) = cornersOf vertices [] := by
  induction vertices generalizing n with
  | nil => rfl
  | cons p vertices ih =>
    cases n with
    | zero => rfl
    | succ n => rw [List.replicate_succ, cornersOf, cornersOf, ih]

end Polycurve

/-! ## Growing along vertices -/

namespace Strand

/-- The strand of straight edges along vertices. -/
def along (vertices : List Position) : Strand :=
  ⟨vertices, List.replicate (vertices.length - 1) 0.0⟩

variable {first p q : Position} {front before after vertices : List Position}

theorem append_along (h : vertices ≠ []) (p q : Position) :
    (along vertices).append (ofCurve (.straight [p, q] false)) = along (vertices ++ [q]) := by
  have hpos := List.length_pos_iff.mpr h
  have hlength : (vertices ++ [q]).length - 1 = vertices.length - 1 + 1 := by
    rw [List.length_append, List.length_singleton]
    omega
  rw [append, along, along, hlength, List.replicate_succ']
  rfl

theorem isLoop_along_iff :
    (along (first :: front ++ [p])).isLoop = true ↔ front ≠ [] ∧ first.distance p ≤ tolerance := by
  have hlast : (first :: front ++ [p]).getLast? = some p := List.getLast?_concat
  have hlong : 2 < (first :: front ++ [p]).length ↔ front ≠ [] := by
    rw [List.length_append, List.length_cons, List.length_singleton, ← List.length_pos_iff]
    omega
  rw [isLoop, Bool.and_eq_true, decide_eq_true_eq, along, hlast, meets_iff, hlong]
  simp

/-- The segment from the last vertex on is the first piece that fits. -/
theorem grow_segments_step (hq : q.distance q ≤ tolerance) (hopen : (along (front ++ [q])).isLoop = false)
    (p : Position) (after : List Position) :
    (along (front ++ [q])).grow (Polycurve.segments (q :: p :: after)) =
      (along (front ++ [q] ++ [p])).grow (Polycurve.segments (p :: after)) := by
  have hattach : (along (front ++ [q])).attach? (.straight [q, p] false) = some (along (front ++ [q] ++ [p])) := by
    have hlast : (along (front ++ [q])).vertices.getLast? = some q := List.getLast?_concat
    rw [← append_along (by simp) q p, attach?, hlast]
    exact if_pos (meets_iff.mpr ⟨q, q, rfl, rfl, hq⟩)
  apply grow_of_extend? hopen
  rw [Polycurve.segments, extend?, hattach]

/-- Segments are taken in one after the other while no vertex on the way meets the first. -/
theorem grow_segments (hq : q.distance q ≤ tolerance) (hself : ∀ p ∈ before, p.distance p ≤ tolerance)
    (hopen : (along (first :: front ++ [q])).isLoop = false) (hapart : ∀ p ∈ before, ¬ first.distance p ≤ tolerance)
    (p : Position) (after : List Position) :
    (along (first :: front ++ [q])).grow (Polycurve.segments (q :: (before ++ p :: after))) =
      (along (first :: front ++ q :: before ++ [p])).grow (Polycurve.segments (p :: after)) := by
  induction before generalizing front q with
  | nil => exact grow_segments_step hq hopen p after
  | cons r before ih =>
    obtain ⟨hr, hself⟩ := List.forall_mem_cons.mp hself
    obtain ⟨hrapart, hapart⟩ := List.forall_mem_cons.mp hapart
    have hropen : (along (first :: (front ++ [q]) ++ [r])).isLoop = false :=
      Bool.eq_false_iff.mpr fun hloop => hrapart (isLoop_along_iff.mp hloop).2
    refine (grow_segments_step hq hopen r (before ++ p :: after)).trans ?_
    simpa using ih hr hself hropen hapart

theorem grow_segments_start (hself : ∀ p ∈ q :: before, p.distance p ≤ tolerance)
    (hapart : ∀ p ∈ before, ¬ first.distance p ≤ tolerance) (p : Position) (after : List Position) :
    (along [first, q]).grow (Polycurve.segments (q :: (before ++ p :: after))) =
      (along (first :: (q :: before) ++ [p])).grow (Polycurve.segments (p :: after)) := by
  obtain ⟨hq, hself⟩ := List.forall_mem_cons.mp hself
  have hopen : (along (first :: [] ++ [q])).isLoop = false := rfl
  exact grow_segments hq hself hopen hapart p after

theorem finish_along_of_open (h : (along vertices).isLoop = false) : (along vertices).finish = .straight vertices false := by
  rw [finish, if_neg (by simp [h]), along, Polycurve.ofBulges, Polycurve.cornersOf_replicate_zero]
  rfl

theorem finish_along_of_loop (hfront : front ≠ []) (h : first.distance p ≤ tolerance) :
    (along (first :: front ++ [p])).finish = .straight (first :: front) true := by
  rw [finish, if_pos (isLoop_along_iff.mpr ⟨hfront, h⟩), along, List.dropLast_concat, Polycurve.ofBulges,
    Polycurve.cornersOf_replicate_zero]
  rfl

end Strand

namespace Polycurve

variable {first second p : Position} {rest before after : List Position} {closed : Bool}

theorem join_segments_cons (first second : Position) (rest : List Position) :
    let grown := (Strand.along [first, second]).grow (segments (second :: rest))
    join (segments (first :: second :: rest)) = grown.1.finish :: join grown.2 := by
  rw [segments, join]
  rfl

/-- Segments that come back to the first vertex only at their end, or not at all, join to one curve. -/
theorem join_segments_of_apart (hself : ∀ p ∈ first :: second :: rest, p.distance p ≤ Strand.tolerance)
    (hapart : ∀ p ∈ rest, ¬ first.distance p ≤ Strand.tolerance) :
    join (segments (way (straight (first :: second :: rest) closed))) = [straight (first :: second :: rest) closed] := by
  obtain ⟨hfirst, hself⟩ := List.forall_mem_cons.mp hself
  cases closed with
  | true =>
    have hway : way (straight (first :: second :: rest) true) = first :: second :: (rest ++ [first]) :=
      way_straight _ true
    rw [hway, join_segments_cons, Strand.grow_segments_start hself hapart first [], segments_singleton, Strand.grow_of_extend?_eq_none rfl]
    exact congrArg₂ List.cons (Strand.finish_along_of_loop (List.cons_ne_nil _ _) hfirst) join.eq_1
  | false =>
    have hway : way (straight (first :: second :: rest) false) = first :: second :: rest :=
      way_straight _ false
    rw [hway, join_segments_cons]
    rcases List.eq_nil_or_concat' rest with rfl | ⟨before, last, rfl⟩
    · rw [segments_singleton, Strand.grow_of_extend?_eq_none rfl]
      exact congrArg₂ List.cons (Strand.finish_along_of_open rfl) join.eq_1
    · have hlast : ¬ first.distance last ≤ Strand.tolerance := hapart last (by simp)
      have hopen : (Strand.along (first :: (second :: before) ++ [last])).isLoop = false :=
        Bool.eq_false_iff.mpr fun hloop => hlast (Strand.isLoop_along_iff.mp hloop).2
      have hbefore : ∀ p ∈ second :: before, p.distance p ≤ Strand.tolerance := fun p hp =>
        hself p (List.mem_append_left [last] hp)
      rw [Strand.grow_segments_start hbefore fun p hp => hapart p (List.mem_append_left _ hp), segments_singleton,
        Strand.grow_of_extend?_eq_none rfl]
      exact congrArg₂ List.cons (Strand.finish_along_of_open hopen) join.eq_1

/-- Where a vertex meets the first, the curve is closed. -/
theorem join_segments_of_meets (hself : ∀ p ∈ second :: before, p.distance p ≤ Strand.tolerance)
    (hapart : ∀ p ∈ before, ¬ first.distance p ≤ Strand.tolerance) (hp : first.distance p ≤ Strand.tolerance)
    (after : List Position) :
    ∃ others, join (segments (first :: second :: (before ++ p :: after))) =
      straight (first :: second :: before) true :: others := by
  have hloop : (Strand.along (first :: (second :: before) ++ [p])).isLoop = true :=
    Strand.isLoop_along_iff.mpr ⟨List.cons_ne_nil _ _, hp⟩
  rw [join_segments_cons, Strand.grow_segments_start hself hapart, Strand.grow_of_isLoop hloop,
    Strand.finish_along_of_loop (List.cons_ne_nil _ _) hp]
  exact ⟨_, rfl⟩

/-- A curve is back when its segments are joined, unless a vertex from the third on meets the first. -/
theorem join_segments_iff (hself : ∀ p ∈ first :: second :: rest, p.distance p ≤ Strand.tolerance) :
    join (segments (way (straight (first :: second :: rest) closed))) = [straight (first :: second :: rest) closed] ↔
      ∀ p ∈ rest, ¬ first.distance p ≤ Strand.tolerance := by
  refine ⟨fun hjoin => ?_, join_segments_of_apart hself⟩
  cases hfind : rest.find? fun p => decide (first.distance p ≤ Strand.tolerance) with
  | none => simpa using hfind
  | some p =>
    exfalso
    obtain ⟨hp, before, after, rfl, hbefore⟩ := List.find?_eq_some_iff_append.mp hfind
    have hapart : ∀ p ∈ before, ¬ first.distance p ≤ Strand.tolerance := by simpa using hbefore
    have hway : ∃ after', way (straight (first :: second :: (before ++ p :: after)) closed) =
        first :: second :: (before ++ p :: after') := by
      rw [way_straight]
      cases closed with
      | true => exact ⟨after ++ [first], by simp⟩
      | false => exact ⟨after, rfl⟩
    obtain ⟨after', hway⟩ := hway
    have hbefore : ∀ q ∈ second :: before, q.distance q ≤ Strand.tolerance := fun q hq =>
      hself q (List.mem_cons_of_mem first (List.mem_append_left (p :: after) hq))
    obtain ⟨others, hothers⟩ := join_segments_of_meets hbefore hapart (of_decide_eq_true hp) after'
    rw [hway, hothers] at hjoin
    have hlength := congrArg (·.vertices.length) (List.cons.inj hjoin).1
    simp [straight] at hlength

end Polycurve

/-! ## Scenes -/

namespace Curves

variable {node : Node} {curve : Polycurve}

theorem allEntities_explode (node : Node) : (explode node).allEntities = node.allEntities.flatMap pieces := by
  have hflat (node : Node) : node.allEntities = (node.nodes.map (·.entities)).flatten := List.flatMap_def
  rw [hflat, explode, Node.entities_mapEntities, ← List.flatMap_def, Node.allEntities, List.flatMap_assoc]

theorem edgeEntity_of_straight {edge : Edge} (h : (edge.bulge == 0.0) = true) :
    edgeEntity edge = .segment edge.start edge.stop := by
  have harc : Arc.ofBulge? edge.start edge.stop edge.bulge = none := if_pos (by rw [h, Bool.true_or])
  rw [edgeEntity, harc]

/-- A scene of one curve of straight edges is one of segments when it is taken apart. -/
theorem allEntities_explode_of_straight (honly : node.allEntities = [.polycurve curve])
    (hstraight : ∀ edge ∈ curve.edges, (edge.bulge == 0.0) = true) :
    (explode node).allEntities = curve.edges.map fun edge => .segment edge.start edge.stop := by
  rw [allEntities_explode, honly, List.flatMap_singleton]
  exact List.map_congr_left fun edge hedge => edgeEntity_of_straight (hstraight edge hedge)

theorem pieces_explode (honly : node.allEntities = [.polycurve curve]) (hlong : 2 ≤ curve.vertices.length)
    (hstraight : ∀ edge ∈ curve.edges, (edge.bulge == 0.0) = true) :
    (explode node).pieces = Polycurve.segments curve.way := by
  rw [Node.pieces, allEntities_explode_of_straight honly hstraight, ← Polycurve.segments_edges hlong, List.filterMap_map]
  exact congrFun List.filterMap_eq_map curve.edges

/-- Taken apart and joined, a curve of straight edges is the only entity once more, with the same vertices
    and open or closed as it was, if and only if no vertex from the third on meets the first. The last
    vertex is one of them, also in a closed curve, where the way goes on from it to the first. -/
theorem join_explode (fresh fresh' : NodeId) (values values' : List Value)
    (honly : node.allEntities = [.polycurve curve]) (hlong : 2 ≤ curve.vertices.length)
    (hstraight : ∀ edge ∈ curve.edges, (edge.bulge == 0.0) = true)
    (hself : ∀ p ∈ curve.vertices, p.distance p ≤ Strand.tolerance) :
    ∃ exploded joined : Node, Builtin.run .explode fresh node values = .ok exploded ∧
      Builtin.run .join fresh' exploded values' = .ok joined ∧
      (joined.allEntities = [.polycurve (.straight curve.vertices curve.closed)] ↔
        ∀ first ∈ curve.vertices.head?, ∀ p ∈ curve.vertices.drop 2, ¬ first.distance p ≤ Strand.tolerance) := by
  have hpieces := pieces_explode honly hlong hstraight
  have hway : curve.way = (Polycurve.straight curve.vertices curve.closed).way := by
    rw [Polycurve.way_straight, Polycurve.way]
  match hvertices : curve.vertices, hlong with
  | first :: second :: rest, _ =>
    rw [hvertices] at hself hway
    rw [hway] at hpieces
    obtain ⟨hnone, -⟩ | ⟨-, left, hleft, hrun⟩ := join_cases fresh' (explode node)
    · cases hclosed : curve.closed <;> rw [hpieces, Polycurve.way_straight, hclosed] at hnone <;> cases hnone
    · have hcleared : left.allEntities = [] := by
        rw [hleft.allEntities, allEntities_explode_of_straight honly hstraight, List.filter_eq_nil_iff]
        simp [joinable?]
      rw [hpieces] at hrun
      refine ⟨explode node, _, rfl, hrun, ?_⟩
      have hsingle (curves : List Polycurve) (c : Polycurve) :
          curves.map Entity.polycurve = [.polycurve c] ↔ curves = [c] := by
        rw [← List.map_singleton, List.map_inj_right fun _ _ => Entity.polycurve.inj]
      rw [Node.allEntities_add_holding, hcleared, List.nil_append, hsingle, Polycurve.join_segments_iff hself]
      exact ⟨fun h _ hfirst => Option.some_inj.mp hfirst ▸ h, fun h => h first rfl⟩

/-- A closed triangle in a scene of its own comes back. -/
theorem join_explode_triangle :
    let curve : Polycurve := .straight [⟨0.0, 0.0⟩, ⟨3.0, 0.0⟩, ⟨3.0, 4.0⟩] true
    ∃ exploded joined : Node, Builtin.run .explode ⟨1⟩ (.holding ⟨0⟩ [.polycurve curve]) [] = .ok exploded ∧
      Builtin.run .join ⟨2⟩ exploded [] = .ok joined ∧ joined.allEntities = [.polycurve curve] := by
  intro curve
  have honly : (Node.holding ⟨0⟩ [.polycurve curve]).allEntities = [.polycurve curve] := by
    unfold Node.allEntities
    rw [Node.nodes_eq]
    rfl
  have hstraight : ∀ edge ∈ curve.edges, (edge.bulge == 0.0) = true := by decide
  have hself : ∀ p ∈ curve.vertices, p.distance p ≤ Strand.tolerance := by
    have hfinite : ∀ p ∈ curve.vertices, p.x.isFinite = true ∧ p.y.isFinite = true := by decide
    exact fun p hp => Point.meets_self_of_finite (hfinite p hp).1 (hfinite p hp).2
  obtain ⟨exploded, joined, hexplode, hjoin, hback⟩ :=
    join_explode ⟨1⟩ ⟨2⟩ [] [] honly (by decide) hstraight hself
  refine ⟨exploded, joined, hexplode, hjoin, hback.mpr ?_⟩
  rintro first ⟨⟩ p hp
  obtain rfl : p = ⟨3.0, 4.0⟩ := List.mem_singleton.mp hp
  decide +kernel

end Curves

end Sketchwork
