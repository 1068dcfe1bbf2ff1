/-
  Sketchwork.Proofs.Geometry.Rounding — curves with their corners rounded.

  A rounded curve has two corners where an arc was put in, so its corners and edges are no longer
  numbered as those of the curve were. Its edges are read along the edges of the curve instead
  (`Polycurve.sides`): each one stays, cut back to the arcs at its ends, and the arc at its start
  comes before it (`Edge.cutBack`).

  Proved: a curve cannot be rounded exactly when a straight corner has no arc or an edge is too
  short for the arcs at its ends (`Polycurve.exists_fault_iff`); otherwise the rounded curve is
  the curve with an arc at every straight corner and nowhere else (`Polycurve.exists_roundedBy`).
-/
import Sketchwork.Proofs.Geometry.Doubles
import Sketchwork.Proofs.Geometry.Indexing

namespace Sketchwork

/-- The edge between the arcs at its ends, behind the arc that it leaves. -/
def Edge.cutBack (edge : Edge) (here there : Option (Fillet Float)) : List Edge :=
  (here.map fun arc => ⟨arc.start, arc.stop, arc.bulge⟩).toList ++
    [⟨here.elim edge.start (·.stop), there.elim edge.stop (·.start), edge.bulge⟩]

namespace Polycurve

/-! ## Straight corners -/

/-- Two edges meet at the corner and both are straight. -/
def isStraightCorner (curve : Polycurve) (i : Nat) : Bool :=
  curve.isInner i && curve.bulges[(i + curve.vertices.length - 1) % curve.vertices.length]? == some 0.0 &&
    curve.bulges[i]? == some 0.0

def straightCorners (curve : Polycurve) : List Nat :=
  (List.range curve.vertices.length).filter curve.isStraightCorner

/-- The vertices before, at and behind a corner, round the end. -/
structure CornerAt (curve : Polycurve) (i : Nat) (a b c : Position) : Prop where
  before : curve.vertices[(i + curve.vertices.length - 1) % curve.vertices.length]? = some a
  here : curve.vertices[i]? = some b
  after : curve.vertices[(i + 1) % curve.vertices.length]? = some c

/-- The arc that belongs at a corner, none where the corner stays. -/
inductive ArcAt (curve : Polycurve) (radius : Float) (i : Nat) : Option (Fillet Float) → Prop
  | kept : curve.isStraightCorner i = false → ArcAt curve radius i none
  | rounded {a b c : Position} {arc : Fillet Float} : curve.isStraightCorner i = true → curve.CornerAt i a b c →
      Fillet.corner a b c radius = .ok arc → ArcAt curve radius i (some arc)

/-- No arc rounds the straight corner. -/
inductive StuckAt (curve : Polycurve) (radius : Float) (i : Nat) : Prop
  | intro {a b c : Position} {fault : CornerFault Float} : curve.isStraightCorner i = true → curve.CornerAt i a b c →
      Fillet.corner a b c radius = .error fault → StuckAt curve radius i

variable {curve out : Polycurve} {radius : Float} {i : Nat} {a b c : Position}

theorem exists_cornerAt (hi : i < curve.vertices.length) : ∃ a b c, curve.CornerAt i a b c :=
  ⟨_, _, _, List.getElem?_eq_getElem (Nat.mod_lt _ (by omega)), List.getElem?_eq_getElem hi,
    List.getElem?_eq_getElem (Nat.mod_lt _ (by omega))⟩

theorem filletAt?_of_cornerAt (h : curve.CornerAt i a b c) :
    curve.filletAt? radius i =
      some (if curve.isStraightCorner i then (Fillet.corner a b c radius).map some else .ok none) := by
  obtain ⟨before, hbefore, rfl⟩ := Option.map_eq_some_iff.mp ((getElem?_vertices _).symm.trans h.before)
  obtain ⟨corner, hcorner, rfl⟩ := Option.map_eq_some_iff.mp ((getElem?_vertices _).symm.trans h.here)
  obtain ⟨after, hafter, rfl⟩ := Option.map_eq_some_iff.mp ((getElem?_vertices _).symm.trans h.after)
  rw [length_vertices] at hbefore hafter
  have hkept : (!curve.isInner i || before.bulge != 0.0 || corner.bulge != 0.0) = !curve.isStraightCorner i := by
    rw [isStraightCorner, length_vertices, getElem?_bulges, getElem?_bulges, hbefore, hcorner, Bool.not_and, Bool.not_and]
    rfl
  rw [filletAt?_eq hbefore hcorner hafter, fillet?, hkept]
  cases curve.isStraightCorner i <;> rfl

/-- At a corner there is an arc or none, unless it is stuck. -/
theorem arcAt_or_stuckAt (radius : Float) (hi : i < curve.vertices.length) :
    (∃ arc, (curve.filletAt? radius i).getD (.ok none) = .ok arc ∧ curve.ArcAt radius i arc) ∨
      (∃ fault, (curve.filletAt? radius i).getD (.ok none) = .error fault) ∧ curve.StuckAt radius i := by
  obtain ⟨a, b, c, hcorner⟩ := exists_cornerAt hi
  rw [filletAt?_of_cornerAt hcorner, Option.getD_some]
  cases hstraight : curve.isStraightCorner i with
  | false => exact .inl ⟨none, rfl, .kept hstraight⟩
  | true =>
    cases harc : Fillet.corner a b c radius with
    | ok arc => exact .inl ⟨some arc, rfl, .rounded hstraight hcorner harc⟩
    | error fault => exact .inr ⟨⟨fault, rfl⟩, .intro hstraight hcorner harc⟩

theorem CornerAt.unique {a' b' c' : Position} (h : curve.CornerAt i a b c) (h' : curve.CornerAt i a' b' c') :
    a = a' ∧ b = b' ∧ c = c' :=
  ⟨Option.some.inj (h.before.symm.trans h'.before), Option.some.inj (h.here.symm.trans h'.here),
    Option.some.inj (h.after.symm.trans h'.after)⟩

theorem ArcAt.unique {arc arc' : Option (Fillet Float)} (h : curve.ArcAt radius i arc) (h' : curve.ArcAt radius i arc') :
    arc = arc' := by
  cases h with
  | kept hkept =>
    cases h' with
    | kept => rfl
    | rounded hstraight => exact absurd (hkept.symm.trans hstraight) (by simp)
  | rounded hstraight hcorner harc =>
    cases h' with
    | kept hkept => exact absurd (hkept.symm.trans hstraight) (by simp)
    | rounded _ hcorner' harc' =>
      obtain ⟨rfl, rfl, rfl⟩ := hcorner.unique hcorner'
      exact congrArg some (Except.ok.inj (harc.symm.trans harc'))

theorem ArcAt.not_stuckAt {arc : Option (Fillet Float)} (h : curve.ArcAt radius i arc) : ¬ curve.StuckAt radius i := by
  rintro ⟨hstraight, hcorner, hfault⟩
  cases h with
  | kept hkept => exact absurd (hkept.symm.trans hstraight) (by simp)
  | rounded _ hcorner' harc =>
    obtain ⟨rfl, rfl, rfl⟩ := hcorner.unique hcorner'
    cases hfault.symm.trans harc

theorem ArcAt.isSome_eq {arc : Option (Fillet Float)} (h : curve.ArcAt radius i arc) :
    arc.isSome = curve.isStraightCorner i := by
  cases h with
  | kept hkept => exact hkept.symm
  | rounded hstraight => exact hstraight.symm

/-! ## The arcs of a curve -/

/-- At every corner the arc that belongs there. -/
def Arcs (curve : Polycurve) (radius : Float) (arcs : List (Option (Fillet Float))) : Prop :=
  List.Forall₂ (curve.ArcAt radius) (List.range curve.vertices.length) arcs

variable {arcs : List (Option (Fillet Float))}

theorem Arcs.length_eq (h : curve.Arcs radius arcs) : arcs.length = curve.corners.length := by
  rw [← List.Forall₂.length_eq h, List.length_range, length_vertices]

theorem Arcs.at (h : curve.Arcs radius arcs) {arc : Option (Fillet Float)} (hget : arcs[i]? = some arc) :
    curve.ArcAt radius i arc := by
  obtain ⟨hi, rfl⟩ := List.getElem?_eq_some_iff.mp hget
  have hrange : i < (List.range curve.vertices.length).length := by rwa [List.Forall₂.length_eq h]
  simpa using (List.forall₂_iff_get.mp h).2 i hrange hi

theorem Arcs.exists_getElem? (h : curve.Arcs radius arcs) (hi : i < curve.vertices.length) :
    ∃ arc, arcs[i]? = some arc :=
  ⟨_, List.getElem?_eq_getElem (by rwa [h.length_eq, ← length_vertices])⟩

theorem Arcs.getElem?_eq_some_iff (h : curve.Arcs radius arcs) (hi : i < curve.vertices.length)
    {arc : Option (Fillet Float)} : arcs[i]? = some arc ↔ curve.ArcAt radius i arc := by
  refine ⟨h.at, fun harc => ?_⟩
  obtain ⟨arc', hget⟩ := h.exists_getElem? hi
  rw [hget, (h.at hget).unique harc]

theorem Arcs.not_stuckAt (h : curve.Arcs radius arcs) (hi : i < curve.vertices.length) : ¬ curve.StuckAt radius i := by
  obtain ⟨arc, hget⟩ := h.exists_getElem? hi
  exact (h.at hget).not_stuckAt

theorem arcs_of_fillets (hwell : curve.WellFormed) (h : curve.fillets radius = .ok arcs) : curve.Arcs radius arcs := by
  rw [(fillets_eq hwell radius).2] at h
  have hall := forall₂_of_mapM_eq_ok h
  refine List.forall₂_iff_get.mpr ⟨hall.length_eq, fun i hi harcs => ?_⟩
  have hget := (List.forall₂_iff_get.mp hall).2 i hi harcs
  simp only [List.get_eq_getElem, List.getElem_range] at hget ⊢
  rcases arcAt_or_stuckAt radius (by simpa using hi) with ⟨arc, hok, harc⟩ | ⟨⟨fault, herror⟩, -⟩
  · cases hget.symm.trans hok
    exact harc
  · cases hget.symm.trans herror

theorem exists_stuckAt_of_fillets (hwell : curve.WellFormed) {fault : CornerFault Float}
    (h : curve.fillets radius = .error fault) : ∃ i < curve.vertices.length, curve.StuckAt radius i := by
  rw [(fillets_eq hwell radius).2] at h
  obtain ⟨before, i, after, values, hrange, -, hi⟩ := exists_of_mapM_eq_error h
  have hlt : i < curve.vertices.length := List.mem_range.mp (hrange ▸ by simp)
  rcases arcAt_or_stuckAt radius hlt with ⟨arc, hok, -⟩ | ⟨-, hstuck⟩
  · cases hi.symm.trans hok
  · exact ⟨i, hlt, hstuck⟩

/-! ## Sides -/

/-- Every edge with the arcs at its ends. -/
def sides (curve : Polycurve) (arcs : List (Option (Fillet Float))) :
    List (Edge × Option (Fillet Float) × Option (Fillet Float)) :=
  curve.edges.zip (arcs.zip (arcs.rotateLeft 1))

/-- Both arcs fit on the edge, unless its length or what they take away is no number. -/
def Fits (edge : Edge) (here there : Option (Fillet Float)) : Prop :=
  trimmed edge here there ≤ edge.start.distance edge.stop + slack ∨ (trimmed edge here there).isNaN = true ∨
    (edge.start.distance edge.stop + slack).isNaN = true

theorem fits_of_not_lt {edge : Edge} {here there : Option (Fillet Float)}
    (h : ¬ edge.start.distance edge.stop + slack < trimmed edge here there) : Fits edge here there := by
  by_cases hle : trimmed edge here there ≤ edge.start.distance edge.stop + slack
  · exact .inl hle
  · exact .inr ((Real64.not_le_iff.mp hle).resolve_left h)

theorem Arcs.mem_sides_iff (hwell : curve.WellFormed) (h : curve.Arcs radius arcs) {edge : Edge}
    {here there : Option (Fillet Float)} :
    (edge, here, there) ∈ curve.sides arcs ↔ ∃ i, curve.edges[i]? = some edge ∧ curve.ArcAt radius i here ∧
      curve.ArcAt radius ((i + 1) % curve.vertices.length) there := by
  have hlong := hwell.vertices
  rw [List.mem_iff_getElem?]
  refine exists_congr fun i => ?_
  rw [sides, List.getElem?_zip_eq_some, List.getElem?_zip_eq_some]
  refine and_congr_right fun hedge => ?_
  have hlength : arcs.length = curve.vertices.length := h.length_eq.trans curve.length_vertices.symm
  have hi : i < curve.vertices.length := by
    rw [length_vertices]
    exact lt_of_lt_edgeCount hwell (length_edges hwell ▸ (List.getElem?_eq_some_iff.mp hedge).1)
  rw [rotateLeft_eq_rotate, List.getElem?_rotate (hlength ▸ hi), hlength, h.getElem?_eq_some_iff hi,
    h.getElem?_eq_some_iff (Nat.mod_lt _ (by omega))]

theorem overlapping?_eq_none_iff : curve.overlapping? arcs = none ↔
    ∀ side ∈ curve.sides arcs, ¬ side.1.start.distance side.1.stop + slack < trimmed side.1 side.2.1 side.2.2 := by
  rw [overlapping?, List.findIdx?_eq_none_iff]
  simp [sides]

/-! ## Edges -/

/-- Where the way goes on from the corner before: at the arc, or at the corner that stays. -/
def entry (corner : Corner) (arc : Option (Fillet Float)) : Corner :=
  arc.elim corner fun arc => ⟨arc.start, arc.bulge⟩

theorem edgesAlong_cut (corner : Corner) (arc there : Option (Fillet Float)) (next : Corner) (rest : List Corner) :
    edgesAlong (cut corner arc ++ entry next there :: rest) =
      Edge.cutBack ⟨corner.position, next.position, corner.bulge⟩ arc there ++ edgesAlong (entry next there :: rest) := by
  cases arc <;> cases there <;> rfl

theorem exists_cut_eq (corner : Corner) (arc : Option (Fillet Float)) :
    ∃ rest, cut corner arc = entry corner arc :: rest := by
  cases arc with
  | none => exact ⟨[], rfl⟩
  | some arc => exact ⟨[⟨arc.stop, corner.bulge⟩], rfl⟩

/-- Corners with their arcs put in. -/
def cutCorners (corners : List Corner) (arcs : List (Option (Fillet Float))) : List Corner :=
  (corners.zip arcs).flatMap fun (c, arc) => cut c arc

theorem cutCorners_cons (corner : Corner) (corners : List Corner) (arc : Option (Fillet Float)) :
    cutCorners (corner :: corners) (arc :: arcs) = cut corner arc ++ cutCorners corners arcs :=
  rfl

theorem cutCorners_concat {corners : List Corner} (h : arcs.length = corners.length) (last : Corner) :
    cutCorners (corners ++ [last]) (arcs ++ [none]) = cutCorners corners arcs ++ [last] := by
  rw [cutCorners, List.zip_append h.symm, List.flatMap_append]
  rfl

/-- Along corners with their arcs go the edges cut back. -/
theorem edgesAlong_cutCorners {corners : List Corner} (h : arcs.length = corners.length) (last : Corner)
    (there : Option (Fillet Float)) :
    edgesAlong (cutCorners corners arcs ++ [entry last there]) =
      ((edgesAlong (corners ++ [last])).zip (arcs.zip (arcs.tail ++ [there]))).flatMap fun (edge, here, there) =>
        edge.cutBack here there := by
  induction corners generalizing arcs with
  | nil => rfl
  | cons corner corners ih =>
    match corners, arcs, h with
    | [], [arc], _ => simpa [edgesAlong, cutCorners] using edgesAlong_cut corner arc there last []
    | next :: corners, arc :: nextArc :: arcs, h =>
      have hlength : (nextArc :: arcs).length = (next :: corners).length := by
        simpa using h
      have ih := ih hlength
      -- This edge ends where the next corner, already cut, is entered.
      obtain ⟨rest, hnext⟩ := exists_cut_eq next nextArc
      simp only [cutCorners_cons, List.zip_cons_cons, List.flatMap_cons, hnext, List.cons_append, List.append_assoc,
        List.tail_cons, edgesAlong] at ih ⊢
      rw [edgesAlong_cut, ih]

/-- A closed curve comes back to its first corner, or to the arc there. -/
theorem edges_of_closed_cut (hclosed : curve.closed = true) (hwell : curve.WellFormed)
    (hout : Polycurve.WellFormed ⟨cutCorners curve.corners arcs, true⟩) (hlength : arcs.length = curve.corners.length) :
    edges ⟨cutCorners curve.corners arcs, true⟩ =
      (curve.sides arcs).flatMap fun (edge, here, there) => edge.cutBack here there := by
  have hlong := hwell.corners
  obtain ⟨first, corners, hcorners⟩ :=
    List.exists_cons_of_ne_nil (List.ne_nil_of_length_pos (show 0 < curve.corners.length by omega))
  obtain ⟨arc, rest, rfl⟩ := List.exists_cons_of_ne_nil (List.ne_nil_of_length_pos (show 0 < arcs.length by omega))
  obtain ⟨behind, hfirst⟩ := exists_cut_eq first arc
  have htake : (cutCorners curve.corners (arc :: rest)).take 1 = [entry first arc] := by
    rw [hcorners, cutCorners_cons, hfirst]
    rfl
  have hrotate : (arc :: rest).rotateLeft 1 = (arc :: rest).tail ++ [arc] := by
    rw [rotateLeft_eq_rotate, List.rotate_cons_succ, List.rotate_zero, List.tail_cons]
  have hpath : curve.path = curve.corners ++ [first] := by
    rw [path, if_pos hclosed, hcorners]
    rfl
  rw [edges_eq hout, path, if_pos rfl, htake, sides, edges_eq hwell, hpath, hrotate]
  exact edgesAlong_cutCorners hlength first arc

/-- The last corner of an open curve stays. -/
theorem Arcs.getLast?_of_open (h : curve.Arcs radius arcs) (hopen : curve.closed = false) (hwell : curve.WellFormed) :
    arcs.getLast? = some none := by
  have := hwell.corners
  have hkept : curve.isStraightCorner (curve.vertices.length - 1) = false := by
    rw [isStraightCorner, isInner, hopen]
    simp
  rw [List.getLast?_eq_getElem?, h.length_eq, ← length_vertices, h.getElem?_eq_some_iff (by rw [length_vertices]; omega)]
  exact .kept hkept

/-- An open curve has no edge from its last corner to the first. -/
theorem zip_rotateLeft_of_open {edges : List Edge} {front : List (Option (Fillet Float))} {last : Option (Fillet Float)}
    (hne : front ≠ []) (h : edges.length = front.length) :
    edges.zip ((front ++ [last]).zip ((front ++ [last]).rotateLeft 1)) =
      edges.zip (front.zip (front.tail ++ [last])) := by
  obtain ⟨first, rest, rfl⟩ := List.exists_cons_of_ne_nil hne
  have hrotate : (first :: rest ++ [last]).rotateLeft 1 = (rest ++ [last]) ++ [first] := by
    rw [rotateLeft_eq_rotate, List.cons_append, List.rotate_cons_succ, List.rotate_zero]
  have hlength : (first :: rest).length = (rest ++ [last]).length := by
    simp
  -- The last pair has no edge and falls away.
  conv_lhs => rw [← List.append_nil edges, hrotate, List.zip_append hlength]
  rw [List.zip_append (by simp [h]), List.zip_nil_left, List.append_nil, List.tail_cons]

theorem edges_of_open_cut (hopen : curve.closed = false) (hwell : curve.WellFormed)
    (hout : Polycurve.WellFormed ⟨cutCorners curve.corners arcs, false⟩) (harcs : curve.Arcs radius arcs) :
    edges ⟨cutCorners curve.corners arcs, false⟩ =
      (curve.sides arcs).flatMap fun (edge, here, there) => edge.cutBack here there := by
  have hlong := hwell.corners
  have hlength := harcs.length_eq
  obtain ⟨front, rfl⟩ : ∃ front, arcs = front ++ [none] :=
    List.getLast?_eq_some_iff.mp (harcs.getLast?_of_open hopen hwell)
  obtain ⟨corners, last, hcorners⟩ : ∃ corners last, curve.corners = corners ++ [last] :=
    ⟨_, _, (List.dropLast_concat_getLast (List.ne_nil_of_length_pos (by omega))).symm⟩
  rw [hcorners, List.length_append, List.length_singleton] at hlong
  have hfront : front.length = corners.length := by
    simpa [hcorners] using hlength
  have hpath : curve.path = corners ++ [last] := by
    rw [path, if_neg (by simp [hopen]), hcorners]
  have hedges : (edgesAlong (corners ++ [last])).length = front.length := by
    rw [length_edgesAlong, List.length_append, List.length_singleton, Nat.add_sub_cancel, hfront]
  have hsides : curve.sides (front ++ [none]) = (edgesAlong (corners ++ [last])).zip (front.zip (front.tail ++ [none])) := by
    rw [sides, edges_eq hwell, hpath, zip_rotateLeft_of_open (List.ne_nil_of_length_pos (by omega)) hedges]
  rw [edges_eq hout, path, if_neg (by simp), hsides, hcorners, cutCorners_concat hfront]
  exact edgesAlong_cutCorners hfront last none

/-! ## Rounding -/

/-- An arc takes one corner more. -/
theorem length_cutCorners {corners : List Corner} {indices : List Nat} (hlength : arcs.length = corners.length)
    (h : List.Forall₂ (curve.ArcAt radius) indices arcs) :
    (cutCorners corners arcs).length = corners.length + (indices.filter curve.isStraightCorner).length := by
  induction h generalizing corners with
  | nil =>
    obtain rfl := List.length_eq_zero_iff.mp hlength.symm
    rfl
  | @cons i arc indices arcs harc _ ih =>
    match corners, hlength with
    | corner :: corners, hlength =>
      have hcut : (cut corner arc).length = 1 + (curve.isStraightCorner i).toNat := by
        rw [← harc.isSome_eq]
        cases arc <;> rfl
      rw [cutCorners_cons, List.length_append, ih (by simpa using hlength), hcut, List.filter_cons, List.length_cons]
      cases curve.isStraightCorner i <;> simp <;> omega

/-- A curve with its straight corners rounded by arcs. -/
structure RoundedBy (curve : Polycurve) (radius : Float) (arcs : List (Option (Fillet Float))) (out : Polycurve) :
    Prop where
  corners : curve.Arcs radius arcs
  vertices : out.vertices.length = curve.vertices.length + curve.straightCorners.length
  bulges : out.bulges.length = curve.vertices.length + curve.straightCorners.length
  closed : out.closed = curve.closed
  /-- The edges in order, each behind the arc that it leaves. -/
  edges : out.edges = (curve.sides arcs).flatMap fun (edge, here, there) => edge.cutBack here there
  room : ∀ side ∈ curve.sides arcs, Fits side.1 side.2.1 side.2.2

theorem roundedBy_cutCorners (hlong : 2 ≤ curve.corners.length) (harcs : curve.Arcs radius arcs)
    (hroom : curve.overlapping? arcs = none) :
    curve.RoundedBy radius arcs { curve with corners := cutCorners curve.corners arcs } := by
  have hwell : curve.WellFormed := .of_corners hlong
  have hlength := length_cutCorners harcs.length_eq harcs
  have hout : Polycurve.WellFormed { curve with corners := cutCorners curve.corners arcs } :=
    .of_corners (by simp only [hlength]; omega)
  refine ⟨harcs, ?_, ?_, rfl, ?_, fun side hside => fits_of_not_lt (overlapping?_eq_none_iff.mp hroom side hside)⟩
  · simpa [straightCorners] using hlength
  · simpa [straightCorners] using hlength
  · cases hclosed : curve.closed with
    | true =>
      rw [hclosed] at hout
      exact edges_of_closed_cut hclosed hwell hout harcs.length_eq
    | false =>
      rw [hclosed] at hout
      exact edges_of_open_cut hclosed hwell hout harcs

/-- A straight corner is stuck, or an edge is too short for the arcs at its ends. -/
inductive Unroundable (curve : Polycurve) (radius : Float) : Prop
  | corner {i : Nat} : i < curve.vertices.length → curve.StuckAt radius i → Unroundable curve radius
  | edge {i : Nat} {edge : Edge} {here there : Option (Fillet Float)} : curve.edges[i]? = some edge →
      curve.ArcAt radius i here → curve.ArcAt radius ((i + 1) % curve.vertices.length) there →
      edge.start.distance edge.stop + slack < trimmed edge here there → Unroundable curve radius

/-- A curve is rounded unless something about it stands against that. -/
theorem rounded_cases (hlong : 3 ≤ curve.vertices.length) :
    (∃ arcs out, curve.rounded radius = .ok out ∧ curve.RoundedBy radius arcs out ∧ ¬ curve.Unroundable radius) ∨
      ∃ fault, curve.rounded radius = .error fault ∧ curve.Unroundable radius := by
  rw [length_vertices] at hlong
  have hwell : curve.WellFormed := .of_corners (by omega)
  rw [rounded, if_neg (by omega)]
  cases hfillets : curve.fillets radius with
  | error fault =>
    obtain ⟨i, hi, hstuck⟩ := exists_stuckAt_of_fillets hwell hfillets
    exact .inr ⟨_, rfl, .corner hi hstuck⟩
  | ok arcs =>
    have harcs := arcs_of_fillets hwell hfillets
    dsimp only
    cases hroom : curve.overlapping? arcs with
    | none =>
      refine .inl ⟨arcs, _, rfl, roundedBy_cutCorners (by omega) harcs hroom, ?_⟩
      rintro (⟨hi, hstuck⟩ | ⟨hedge, hhere, hthere, hshort⟩)
      · exact harcs.not_stuckAt hi hstuck
      · exact overlapping?_eq_none_iff.mp hroom _ ((harcs.mem_sides_iff hwell).mpr ⟨_, hedge, hhere, hthere⟩) hshort
    | some index =>
      have hshort : ∃ side ∈ curve.sides arcs,
          side.1.start.distance side.1.stop + slack < trimmed side.1 side.2.1 side.2.2 := by
        by_contra hnone
        rw [overlapping?_eq_none_iff.mpr fun side hside hshort => hnone ⟨side, hside, hshort⟩] at hroom
        cases hroom
      obtain ⟨⟨edge, here, there⟩, hside, hshort⟩ := hshort
      obtain ⟨i, hedge, hhere, hthere⟩ := (harcs.mem_sides_iff hwell).mp hside
      exact .inr ⟨_, rfl, .edge hedge hhere hthere hshort⟩

theorem rounded_of_short (h : curve.vertices.length < 3) : curve.rounded radius = .ok curve :=
  if_pos (curve.length_vertices ▸ h)

theorem exists_roundedBy (hlong : 3 ≤ curve.vertices.length) (h : curve.rounded radius = .ok out) :
    ∃ arcs, curve.RoundedBy radius arcs out := by
  rcases rounded_cases hlong with ⟨arcs, out', hout, hrounded, -⟩ | ⟨fault, hfault, -⟩
  · cases h.symm.trans hout
    exact ⟨arcs, hrounded⟩
  · cases h.symm.trans hfault

theorem exists_fault_iff (hlong : 3 ≤ curve.vertices.length) :
    (∃ fault, curve.rounded radius = .error fault) ↔ curve.Unroundable radius := by
  rcases rounded_cases hlong with ⟨arcs, out, hout, -, hround⟩ | ⟨fault, hfault, hunround⟩
  · exact iff_of_false (fun ⟨fault, h⟩ => nomatch hout.symm.trans h) hround
  · exact iff_of_true ⟨fault, hfault⟩ hunround

/-- The way from a vertex that is no number has no length that an arc could exceed. -/
theorem rounded_of_undefined_vertex :
    ∃ (curve : Polycurve) (radius : Float) (edge : Edge) (here there : Option (Fillet Float)),
      3 ≤ curve.vertices.length ∧ curve.rounded radius = .ok curve ∧ curve.edges[0]? = some edge ∧
        curve.ArcAt radius 0 here ∧ curve.ArcAt radius 1 there ∧
        ¬ trimmed edge here there ≤ edge.start.distance edge.stop + slack := by
  refine ⟨.ofBulges [⟨0.0 / 0.0, 0.0⟩, ⟨0.0, 0.0⟩, ⟨1.0, 0.0⟩] [1.0, 1.0, 0.0] false, 1.0, _, none, none, ?_, rfl, rfl,
    .kept ?_, .kept ?_, ?_⟩ <;> decide

end Polycurve

end Sketchwork
