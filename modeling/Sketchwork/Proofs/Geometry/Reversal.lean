/-
  Sketchwork.Proofs.Geometry.Reversal — curves run through backwards.

  Turning a curve round takes its vertices in the other order, but its bulges only up to the last
  one, which stays where it is: in an open curve it belongs to no edge, in a closed one to the edge
  that closes it, and that edge joins the same two vertices in both directions. So the steps from
  the first vertex to the last and the closing edge are looked at apart, and for the steps a list of
  vertices is read with one bulge for each (`Edge.between`).

  Bulges are compared as numbers (`Real64.SameNumber`): an edge turned round has no sign at a zero.

  Proved: the steps of a reversed curve are its steps backwards (`Polycurve.steps_reversed`), so its
  edges are the edges backwards, the closing one still last (`Polycurve.edges_reversed`), and two
  reversals give the curve back (`Polycurve.reversed_runs_backwards`).
-/
import Sketchwork.Proofs.Geometry.Chains
import Sketchwork.Proofs.Geometry.Doubles

namespace Sketchwork

/-! ## Bulges as numbers -/

/-- Doubles that stand for the same number: 0 has two, and what is no number is itself. -/
def Real64.SameNumber (a b : Float) : Prop :=
  a = b ∨ (a == b) = true

namespace Edge

variable {b : Float}

theorem eq_zero_of_beq_zero (h : (b == 0.0) = true) : b = 0.0 ∨ b = -0.0 := by
  have hcompare : b.toModel.unpack.compare (0.0 : Float).toModel.unpack = some .eq := beq_iff_eq.mp h
  have hswap : (0.0 : Float).toModel.unpack.compare b.toModel.unpack = some .eq := by
    rw [Real64.compare_swap b.toModel.unpack, hcompare]
    rfl
  have hzero : (0.0 : Float).toModel.unpack.isFinite = true := by decide
  exact Real64.eq_zero_or_of_beq_zero (Real64.isFinite_of_compare_eq hzero hswap) h

theorem flipBulge_of_zero (h : (b == 0.0) = true) : flipBulge b = 0.0 :=
  if_pos h

theorem flipBulge_of_ne_zero (h : (b == 0.0) = false) : flipBulge b = -b :=
  if_neg (ne_true_of_eq_false h)

/-- Only a zero has a zero for its negative. -/
theorem neg_beq_zero (h : (b == 0.0) = false) : (-b == 0.0) = false := by
  apply Bool.eq_false_iff.mpr
  intro hneg
  apply ne_true_of_eq_false h
  rw [← Real64.neg_twice b]
  rcases eq_zero_of_beq_zero hneg with hb | hb <;> rw [hb] <;> decide

theorem sameNumber_flipBulge (b : Float) : Real64.SameNumber (flipBulge b) (-b) := by
  cases h : b == 0.0 with
  | true =>
    rw [flipBulge_of_zero h]
    right
    rcases eq_zero_of_beq_zero h with rfl | rfl <;> decide
  | false => exact .inl (flipBulge_of_ne_zero h)

theorem sameNumber_flipBulge_flipBulge (b : Float) : Real64.SameNumber (flipBulge (flipBulge b)) b := by
  cases h : b == 0.0 with
  | true =>
    rw [flipBulge_of_zero h, flipBulge_of_zero (by decide)]
    right
    rcases eq_zero_of_beq_zero h with rfl | rfl <;> decide
  | false =>
    left
    rw [flipBulge_of_ne_zero h, flipBulge_of_ne_zero (neg_beq_zero h), Real64.neg_twice]

/-! ## Edges backwards -/

/-- The edge from its stop to its start. -/
def turned (edge : Edge) : Edge :=
  ⟨edge.stop, edge.start, flipBulge edge.bulge⟩

/-- `back` runs through an edge from its stop to its start and bends the other way. -/
structure Backwards (edge back : Edge) : Prop where
  start : back.start = edge.stop
  stop : back.stop = edge.start
  bulge : Real64.SameNumber back.bulge (-edge.bulge)

theorem backwards_turned (edge : Edge) : edge.Backwards edge.turned :=
  ⟨rfl, rfl, sameNumber_flipBulge edge.bulge⟩

/-- The edges from each position to the next, with one bulge for each. -/
def between : List Position → List Float → List Edge
  | p :: q :: ps, b :: bs => ⟨p, q, b⟩ :: between (q :: ps) bs
  | _, _ => []

theorem between_concat (ps : List Position) (p q : Position) {bs : List Float} (b : Float) (h : bs.length = ps.length) :
    between (ps ++ [p, q]) (bs ++ [b]) = between (ps ++ [p]) bs ++ [⟨p, q, b⟩] := by
  induction ps generalizing bs with
  | nil =>
    obtain rfl := List.length_eq_zero_iff.mp h
    rfl
  | cons first ps ih =>
    match bs, h with
    | b' :: bs, h =>
      have ih : between (ps ++ [p, q]) (bs ++ [b]) = between (ps ++ [p]) bs ++ [⟨p, q, b⟩] := ih (by simpa using h)
      match ps, ih with
      | [], ih => exact congrArg (List.cons _) ih
      | _ :: _, ih => exact congrArg (List.cons _) ih

theorem between_reverse {ps : List Position} {bs : List Float} (h : bs.length + 1 = ps.length) :
    between ps.reverse (bs.map flipBulge).reverse = ((between ps bs).map turned).reverse := by
  induction ps generalizing bs with
  | nil => cases h
  | cons p ps ih =>
    match ps, bs, h with
    | [], [], _ => rfl
    | q :: ps, b :: bs, h =>
      have hlength : (bs.map flipBulge).reverse.length = ps.reverse.length := by
        simpa using h
      have ih : between (q :: ps).reverse (bs.map flipBulge).reverse = ((between (q :: ps) bs).map turned).reverse :=
        ih (by simpa using h)
      calc between (p :: q :: ps).reverse ((b :: bs).map flipBulge).reverse
        _ = between (ps.reverse ++ [q, p]) ((bs.map flipBulge).reverse ++ [flipBulge b]) := by simp
        _ = between (ps.reverse ++ [q]) (bs.map flipBulge).reverse ++ [⟨q, p, flipBulge b⟩] :=
          between_concat ps.reverse q p (flipBulge b) hlength
        _ = ((between (q :: ps) bs).map turned).reverse ++ [turned ⟨p, q, b⟩] := by
          rw [← List.reverse_cons, ih]
          rfl
        _ = ((between (p :: q :: ps) (b :: bs)).map turned).reverse := by simp [between]

end Edge

namespace Polycurve

variable {curve : Polycurve}

theorem edgesAlong_eq_between (corners : List Corner) :
    edgesAlong corners = Edge.between (corners.map (·.position)) (corners.map (·.bulge)).dropLast := by
  induction corners using edgesAlong.induct with
  | case1 c d rest ih => rw [edgesAlong, ih]; rfl
  | case2 corners hshort =>
    rcases corners with _ | ⟨c, _ | ⟨d, rest⟩⟩
    · rfl
    · rfl
    · exact absurd rfl (hshort c d rest)

theorem steps_eq_between (curve : Polycurve) : curve.steps = Edge.between curve.vertices curve.bulges.dropLast :=
  edgesAlong_eq_between curve.corners

/-- The edges from the first vertex to the last are run through backwards. -/
theorem steps_reversed (curve : Polycurve) : curve.reversed.steps = (curve.steps.map Edge.turned).reverse := by
  rw [steps_eq_between, steps_eq_between, vertices_reversed, bulges_reversed]
  rcases List.eq_nil_or_concat curve.corners with hnone | ⟨corners, last, hcorners⟩
  · rw [vertices, bulges, hnone]
    rfl
  · have hbulges : curve.bulges = corners.map (·.bulge) ++ [last.bulge] := by
      rw [bulges, hcorners, List.concat_eq_append, List.map_append, List.map_singleton]
    have hlength : curve.bulges.dropLast.length + 1 = curve.vertices.length := by
      rw [hbulges, List.dropLast_concat, List.length_map, length_vertices, hcorners, List.length_concat]
    rw [← Edge.between_reverse hlength, hbulges, List.map_append, List.map_singleton, List.dropLast_concat,
      List.getLast?_concat, Option.toList_some, List.dropLast_concat, List.dropLast_concat]

/-! ## The closing edge -/

theorem edgesAlong_concat (front : List Corner) (last next : Corner) :
    edgesAlong (front ++ [last, next]) =
      edgesAlong (front ++ [last]) ++ [⟨last.position, next.position, last.bulge⟩] := by
  have hlength : (front.map (·.bulge)).length = (front.map (·.position)).length := by
    rw [List.length_map, List.length_map]
  have h := Edge.between_concat _ last.position next.position last.bulge hlength
  rw [edgesAlong_eq_between, edgesAlong_eq_between]
  simpa [List.dropLast_append_of_ne_nil] using h

theorem edges_of_short (curve : Polycurve) (h : ¬ 2 ≤ curve.corners.length) : curve.edges = [] := by
  obtain ⟨corners, closed⟩ := curve
  match corners, h with
  | [], _ | [_], _ => rfl
  | _ :: _ :: _, h => exact absurd (by simp) h

/-- The closing edge comes behind the steps, from the last vertex back to the first. -/
theorem edges_of_closed {first last : Position} {b : Float} (hclosed : curve.closed = true)
    (hlong : 2 ≤ curve.corners.length) (hfirst : curve.vertices.head? = some first)
    (hlast : curve.vertices.getLast? = some last) (hbulge : curve.bulges.getLast? = some b) :
    curve.edges = curve.steps ++ [⟨last, first, b⟩] := by
  obtain ⟨corners, closed⟩ := curve
  cases hclosed
  match corners, hlong with
  | c :: d :: rest, _ =>
    cases hfirst
    obtain ⟨corner, hcorner, rfl⟩ := Option.map_eq_some_iff.mp (List.getLast?_map ▸ hlast)
    obtain ⟨front, hfront⟩ : ∃ front, c :: d :: rest = front ++ [corner] := List.getLast?_eq_some_iff.mp hcorner
    have hb : b = corner.bulge := by
      rw [bulges, List.getLast?_map, hcorner] at hbulge
      exact (Option.some.inj hbulge).symm
    show edgesAlong (c :: d :: rest ++ [c]) = edgesAlong (c :: d :: rest) ++ _
    rw [hfront, List.append_assoc, hb]
    exact edgesAlong_concat front corner c

theorem getLast?_bulges_reversed (curve : Polycurve) :
    curve.reversed.bulges.getLast? = curve.bulges.getLast?.map Edge.flipBulge := by
  rw [bulges_reversed, ← List.getLast?_map]
  cases h : (curve.bulges.map Edge.flipBulge).getLast? with
  | none =>
    rw [List.getLast?_eq_none_iff.mp h]
    rfl
  | some last => rw [Option.toList_some, List.getLast?_concat]

/-! ## Curves backwards -/

/-- The edges in the order in which they are run through backwards: the closing one stays last. -/
def edgesBackwards (curve : Polycurve) : List Edge :=
  if curve.closed then curve.edges.dropLast.reverse ++ curve.edges.getLast?.toList else curve.edges.reverse

theorem edges_reversed (curve : Polycurve) : curve.reversed.edges = curve.edgesBackwards.map Edge.turned := by
  have hcorners : curve.reversed.corners.length = curve.corners.length := by
    rw [← length_vertices, vertices_reversed, List.length_reverse, length_vertices]
  rw [edgesBackwards]
  cases hclosed : curve.closed with
  | false =>
    have hback : curve.reversed.edges = curve.reversed.steps := edges_of_open hclosed
    rw [if_neg (by simp), hback, edges_of_open hclosed, steps_reversed, List.map_reverse]
  | true =>
    rw [if_pos rfl]
    by_cases hlong : 2 ≤ curve.corners.length
    · obtain ⟨first, hfirst⟩ : ∃ first, curve.vertices.head? = some first :=
        ⟨_, List.head?_eq_some_head (List.ne_nil_of_length_pos (by rw [length_vertices]; omega))⟩
      obtain ⟨last, hlast⟩ : ∃ last, curve.vertices.getLast? = some last :=
        ⟨_, List.getLast?_eq_some_getLast (List.ne_nil_of_length_pos (by rw [length_vertices]; omega))⟩
      obtain ⟨b, hbulge⟩ : ∃ b, curve.bulges.getLast? = some b :=
        ⟨_, List.getLast?_eq_some_getLast (List.ne_nil_of_length_pos (by rw [length_bulges]; omega))⟩
      have hback : curve.reversed.edges = curve.reversed.steps ++ [⟨first, last, Edge.flipBulge b⟩] := by
        refine edges_of_closed hclosed (hcorners ▸ hlong) ?_ ?_ ?_
        · rw [vertices_reversed, List.head?_reverse, hlast]
        · rw [vertices_reversed, List.getLast?_reverse, hfirst]
        · rw [getLast?_bulges_reversed, hbulge]
          rfl
      rw [hback, steps_reversed, edges_of_closed hclosed hlong hfirst hlast hbulge, List.dropLast_concat,
        List.getLast?_concat, List.map_append, List.map_reverse]
      rfl
    · rw [edges_of_short curve hlong, edges_of_short curve.reversed (hcorners ▸ hlong)]
      rfl

theorem bulges_reversed_reversed (curve : Polycurve) :
    curve.reversed.reversed.bulges = curve.bulges.map fun b => Edge.flipBulge (Edge.flipBulge b) := by
  rw [bulges_reversed, bulges_reversed]
  rcases List.eq_nil_or_concat curve.bulges with hnone | ⟨front, last, hbulges⟩
  · rw [hnone]
    rfl
  · rw [hbulges, List.concat_eq_append]
    simp

/-- Another curve runs through the same edges backwards. -/
structure RunsBackwards (curve back : Polycurve) : Prop where
  edges : List.Forall₂ Edge.Backwards curve.edgesBackwards back.edges
  vertices : back.vertices.length = curve.vertices.length
  bulges : back.bulges.length = curve.bulges.length
  closed : back.closed = curve.closed

/-- The same curve, with bulges that are the same numbers. -/
structure SameCurve (curve other : Polycurve) : Prop where
  vertices : other.vertices = curve.vertices
  bulges : List.Forall₂ Real64.SameNumber other.bulges curve.bulges
  closed : other.closed = curve.closed

/-- A reversed curve runs through the edges backwards, and reversed again it is the curve. -/
theorem reversed_runs_backwards (curve : Polycurve) :
    curve.RunsBackwards curve.reversed ∧ curve.SameCurve curve.reversed.reversed := by
  constructor
  · refine ⟨?_, ?_, ?_, rfl⟩
    · rw [edges_reversed, List.forall₂_map_right_iff]
      exact List.forall₂_same.mpr fun edge _ => edge.backwards_turned
    · rw [vertices_reversed, List.length_reverse]
    · rw [bulges_reversed, length_flipped, List.length_map]
  · refine ⟨?_, ?_, rfl⟩
    · rw [vertices_reversed, vertices_reversed, List.reverse_reverse]
    · rw [bulges_reversed_reversed, List.forall₂_map_left_iff]
      exact List.forall₂_same.mpr fun b _ => Edge.sameNumber_flipBulge_flipBulge b

end Polycurve

end Sketchwork
