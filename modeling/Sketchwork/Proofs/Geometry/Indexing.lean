/-
  Sketchwork.Proofs.Geometry.Indexing — curves read by index.

  Curves are lists of corners and the features go along them. Here their edges, their turning
  round, their rounding and their joining are read from the vertices and the bulges by index,
  and every access may be out of range: it is an `Option`. The corner before the first one and
  the one behind the last are reached round the end, whether or not the curve is closed.

  Proved: for a well-formed curve no access is out of range, and what is read is what the lists
  give (`Polycurve.WellFormed.indexed`); nor is one for an aligned strand and the pieces it may
  take in (`Strand.extendAt?_eq`).
-/
import Sketchwork.Proofs.Geometry.WellFormed

namespace Sketchwork

namespace Polycurve

/-! ## Reading by index -/

/-- The corners that edges run along: a closed curve comes back to the first. -/
def path (curve : Polycurve) : List Corner :=
  if curve.closed then curve.corners ++ curve.corners.take 1 else curve.corners

def edgeCount (curve : Polycurve) : Nat :=
  if curve.vertices.length < 2 then 0
  else if curve.closed then curve.vertices.length
  else curve.vertices.length - 1

def edgeAt? (curve : Polycurve) (i : Nat) : Option Edge := do
  let p ← curve.vertices[i]?
  let q ← curve.vertices[(i + 1) % curve.vertices.length]?
  let b ← curve.bulges[i]?
  return ⟨p, q, b⟩

/-- Two edges meet at every corner but the ends of an open curve. -/
def isInner (curve : Polycurve) (i : Nat) : Bool :=
  curve.closed || (decide (0 < i) && decide (i < curve.vertices.length - 1))

/-- The arc at a corner, none where the corner stays. -/
def filletAt? (curve : Polycurve) (radius : Float) (i : Nat) :
    Option (Except (CornerFault Float) (Option (Fillet Float))) := do
  let n := curve.vertices.length
  if !curve.isInner i then return .ok none
  let before ← curve.bulges[(i + n - 1) % n]?
  let here ← curve.bulges[i]?
  if before != 0.0 || here != 0.0 then return .ok none
  let a ← curve.vertices[(i + n - 1) % n]?
  let b ← curve.vertices[i]?
  let c ← curve.vertices[(i + 1) % n]?
  return (Fillet.corner a b c radius).map some

/-- No access to the curve is out of range, and the lists hold what is read. -/
structure Indexed (curve : Polycurve) : Prop where
  edges : curve.edges.length = curve.edgeCount
  edge {i : Nat} : i < curve.edgeCount → ∃ e, curve.edgeAt? i = some e ∧ curve.edges[i]? = some e
  /-- Vertices backwards; bulges too, but for the last one, which stays. -/
  reversed {i : Nat} : i < curve.vertices.length →
    ∃ p b, curve.vertices[curve.vertices.length - 1 - i]? = some p ∧
      curve.bulges[if i + 1 < curve.bulges.length then curve.bulges.length - 2 - i else i]? = some b ∧
      curve.reversed.vertices[i]? = some p ∧ curve.reversed.bulges[i]? = some (Edge.flipBulge b)
  fillet (radius : Float) :
    (∀ i, i < curve.vertices.length → (curve.filletAt? radius i).isSome = true) ∧
      curve.fillets radius = (List.range curve.vertices.length).mapM fun i => (curve.filletAt? radius i).getD (.ok none)
  /-- Arcs are looked up at a corner and at the next. -/
  arcs {radius : Float} {arcs : List (Option (Fillet Float))} : curve.fillets radius = .ok arcs →
    ∀ i, i < curve.edgeCount → i < arcs.length ∧ (i + 1) % curve.vertices.length < arcs.length

variable {curve : Polycurve}

theorem getElem?_vertices (i : Nat) : curve.vertices[i]? = curve.corners[i]?.map (·.position) :=
  List.getElem?_map

theorem getElem?_bulges (i : Nat) : curve.bulges[i]? = curve.corners[i]?.map (·.bulge) :=
  List.getElem?_map

/-! ## Edges -/

theorem getElem?_edgesAlong (cs : List Corner) (i : Nat) :
    (edgesAlong cs)[i]? = do
      let c ← cs[i]?
      let d ← cs[i + 1]?
      return ⟨c.position, d.position, c.bulge⟩ := by
  induction cs using edgesAlong.induct generalizing i with
  | case1 c d rest ih =>
    rw [edgesAlong]
    cases i with
    | zero => rfl
    | succ i =>
      rw [List.getElem?_cons_succ, ih]
      rfl
  | case2 cs hcs =>
    have hnone : cs[i + 1]? = none := by
      match cs, hcs with
      | [], _ => rfl
      | [_], _ => rfl
      | c :: d :: rest, h => exact absurd rfl (h c d rest)
    have hedges : edgesAlong cs = [] := by
      match cs, hcs with
      | [], _ => rfl
      | [_], _ => rfl
      | c :: d :: rest, h => exact absurd rfl (h c d rest)
    rw [hedges, hnone]
    cases cs[i]? <;> rfl

theorem length_edgesAlong (cs : List Corner) : (edgesAlong cs).length = cs.length - 1 := by
  induction cs using edgesAlong.induct with
  | case1 c d rest ih => simp [edgesAlong, ih]
  | case2 cs hcs =>
    match cs, hcs with
    | [], _ => rfl
    | [_], _ => rfl
    | c :: d :: rest, h => exact absurd rfl (h c d rest)

theorem edges_eq (h : curve.WellFormed) :
    curve.edges = edgesAlong curve.path := by
  have := h.corners
  obtain ⟨corners, closed⟩ := curve
  match corners, this with
  | c :: d :: rest, _ => rfl

theorem edgeCount_eq (h : curve.WellFormed) :
    curve.edgeCount = if curve.closed then curve.corners.length else curve.corners.length - 1 := by
  have := h.corners
  rw [edgeCount, length_vertices, if_neg (show ¬ curve.corners.length < 2 by omega)]

theorem lt_of_lt_edgeCount (h : curve.WellFormed) {i : Nat} (hi : i < curve.edgeCount) : i < curve.corners.length := by
  rw [edgeCount_eq h] at hi
  split at hi <;> omega

theorem length_edges (h : curve.WellFormed) : curve.edges.length = curve.edgeCount := by
  have := h.corners
  rw [edges_eq h, length_edgesAlong, edgeCount_eq h, path]
  split
  · rw [List.length_append, List.length_take]
    omega
  · rfl

/-- The corner behind another is found round the end when the curve is closed. -/
theorem getElem?_next (h : curve.WellFormed) {i : Nat} (hi : i < curve.edgeCount) :
    curve.path[i + 1]? = curve.corners[(i + 1) % curve.corners.length]? := by
  have := h.corners
  rw [edgeCount_eq h] at hi
  unfold path
  cases hc : curve.closed with
  | true =>
    rw [hc, if_pos rfl] at hi
    rw [if_pos rfl]
    by_cases hlast : i + 1 < curve.corners.length
    · rw [List.getElem?_append_left hlast, Nat.mod_eq_of_lt hlast]
    · have hi : i + 1 = curve.corners.length := by omega
      rw [hi, Nat.mod_self, List.getElem?_append_right (Nat.le_refl _), Nat.sub_self,
        List.getElem?_take_of_lt (by omega)]
  | false =>
    rw [hc, if_neg (by simp)] at hi
    rw [if_neg (by simp), Nat.mod_eq_of_lt (by omega)]

theorem edgeAt?_eq (h : curve.WellFormed) {i : Nat} (hi : i < curve.edgeCount) : curve.edgeAt? i = curve.edges[i]? := by
  have hlt := lt_of_lt_edgeCount h hi
  have hhere : curve.path[i]? = curve.corners[i]? := by
    unfold path
    split
    · exact List.getElem?_append_left hlt
    · rfl
  rw [edges_eq h, getElem?_edgesAlong, getElem?_next h hi, hhere, edgeAt?, length_vertices]
  simp only [getElem?_vertices, getElem?_bulges]
  rw [List.getElem?_eq_getElem hlt]
  cases curve.corners[(i + 1) % curve.corners.length]? <;> rfl

/-! ## Turning round -/

theorem getElem?_flipped (l : List Float) {i : Nat} (hi : i < l.length) :
    (l.dropLast.reverse ++ l.getLast?.toList)[i]? = l[if i + 1 < l.length then l.length - 2 - i else i]? := by
  by_cases hlast : i + 1 < l.length
  · rw [if_pos hlast, List.getElem?_append_left (by simp; omega), List.getElem?_reverse (by simp; omega),
      List.getElem?_dropLast, List.length_dropLast, if_pos (by omega)]
    congr 1
  · have hlen : l.length = i + 1 := by omega
    rw [if_neg hlast, List.getElem?_append_right (by simp; omega), List.length_reverse, List.length_dropLast, hlen]
    rw [show i - (i + 1 - 1) = 0 by omega, List.getLast?_eq_getElem?, hlen, Nat.add_sub_cancel]
    rw [List.getElem?_eq_getElem hi]
    rfl

/-! ## Rounding -/

theorem getElem?_hasBothEdges (h : curve.WellFormed) {i : Nat} (hi : i < curve.corners.length) :
    curve.hasBothEdges[i]? = some (curve.isInner i) := by
  have := h.corners
  unfold hasBothEdges isInner
  rw [length_vertices]
  cases curve.closed with
  | true => simp [hi]
  | false =>
    rw [if_neg (by simp), List.cons_append]
    cases i with
    | zero => rfl
    | succ i =>
      rw [List.getElem?_cons_succ]
      by_cases hlast : i < curve.corners.length - 2
      · rw [List.getElem?_append_left (by simpa using hlast), List.getElem?_replicate_of_lt hlast]
        simp
        omega
      · have hi : i = curve.corners.length - 2 := by omega
        rw [List.getElem?_append_right (by simp; omega), List.length_replicate, hi, Nat.sub_self]
        simp
        omega

theorem filletAt?_eq {radius : Float} {i : Nat} {before corner after : Corner}
    (hb : curve.corners[(i + curve.corners.length - 1) % curve.corners.length]? = some before)
    (hc : curve.corners[i]? = some corner) (ha : curve.corners[(i + 1) % curve.corners.length]? = some after) :
    curve.filletAt? radius i =
      some (fillet? radius (curve.isInner i) before corner after) := by
  unfold filletAt? fillet?
  simp only [length_vertices, getElem?_vertices, getElem?_bulges, hb, hc, ha, Option.map_some]
  cases curve.isInner i with
  | false => rfl
  | true =>
    simp only [Bool.not_true, Bool.false_or, Option.bind_eq_bind, Option.bind_some, Bool.false_eq_true, if_false]
    split <;> rfl

/-- The corners around a corner are the one before it and the one behind it, round the end. -/
theorem fillets_eq (h : curve.WellFormed) (radius : Float) :
    (∀ i, i < curve.vertices.length → (curve.filletAt? radius i).isSome = true) ∧
      curve.fillets radius =
        (List.range curve.vertices.length).mapM fun i => (curve.filletAt? radius i).getD (.ok none) := by
  have hn := h.corners
  have hat {i : Nat} (hi : i < curve.corners.length) : ∃ before corner after,
      curve.corners[(i + curve.corners.length - 1) % curve.corners.length]? = some before ∧
        curve.corners[i]? = some corner ∧ curve.corners[(i + 1) % curve.corners.length]? = some after :=
    ⟨_, _, _, List.getElem?_eq_getElem (Nat.mod_lt _ (by omega)), List.getElem?_eq_getElem hi,
      List.getElem?_eq_getElem (Nat.mod_lt _ (by omega))⟩
  rw [length_vertices]
  constructor
  · intro i hi
    obtain ⟨before, corner, after, hb, hc, ha⟩ := hat hi
    rw [filletAt?_eq hb hc ha]
    rfl
  · refine mapM_congr (List.forall₂_iff_get.mpr ⟨?_, ?_⟩)
    · simp [length_hasBothEdges h, rotateLeft_eq_rotate, rotateRight_eq_rotate]
    · intro i hi hq
      have hi : i < curve.corners.length := by simpa using hi
      obtain ⟨before, corner, after, hb, hc, ha⟩ := hat hi
      have hinner : curve.hasBothEdges[i]? = _ := getElem?_hasBothEdges h hi
      have hleft : curve.corners.rotateLeft[i]? = some after := by
        rw [rotateLeft_eq_rotate, List.getElem?_rotate hi, ha]
      have hright : curve.corners.rotateRight[i]? = some before := by
        rw [rotateRight_eq_rotate, List.getElem?_rotate hi, ← Nat.add_sub_assoc (by omega), hb]
      have hquad :
          ((curve.corners.rotateRight.zip (curve.corners.zip curve.corners.rotateLeft)).zip curve.hasBothEdges)[i]? =
            some ((before, corner, after), curve.isInner i) := by
        rw [List.getElem?_zip_eq_some, List.getElem?_zip_eq_some, List.getElem?_zip_eq_some]
        exact ⟨⟨hright, hc, hleft⟩, hinner⟩
      rw [List.getElem?_eq_getElem hq, Option.some.injEq] at hquad
      simp only [List.get_eq_getElem, List.getElem_range]
      rw [hquad, filletAt?_eq hb hc ha]
      rfl

theorem WellFormed.indexed (h : curve.WellFormed) : curve.Indexed where
  edges := length_edges h
  edge {i} hi := by
    have hlt : i < curve.edges.length := by rwa [length_edges h]
    exact ⟨_, (edgeAt?_eq h hi).trans (List.getElem?_eq_getElem hlt), List.getElem?_eq_getElem hlt⟩
  reversed {i} hi := by
    have hb : i < (curve.bulges.map Edge.flipBulge).length := by simpa using hi
    have hp : curve.vertices.length - 1 - i < curve.vertices.length := by omega
    have hj : (if i + 1 < curve.bulges.length then curve.bulges.length - 2 - i else i) < curve.bulges.length := by
      rw [List.length_map] at hb
      split <;> omega
    refine ⟨_, _, List.getElem?_eq_getElem hp, List.getElem?_eq_getElem hj, ?_, ?_⟩
    · rw [vertices_reversed, List.getElem?_reverse hi, List.getElem?_eq_getElem hp]
    · rw [bulges_reversed, getElem?_flipped _ hb, List.length_map, List.getElem?_map, List.getElem?_eq_getElem hj]
      rfl
  fillet := fillets_eq h
  arcs {radius arcs} harcs i hi := by
    have := h.corners
    rw [length_fillets h harcs, length_vertices]
    exact ⟨lt_of_lt_edgeCount h hi, Nat.mod_lt _ (by omega)⟩

end Polycurve

/-! ## Joining -/

namespace Strand

/-- A run of edges copied from a curve: as many bulges as there are vertices but one. -/
def ofCurve? (curve : Polycurve) : Option Strand :=
  if curve.vertices.length < 1 ∨ curve.bulges.length < curve.vertices.length - 1 then none
  else some ⟨curve.vertices, curve.bulges.take (curve.vertices.length - 1)⟩

/-- Takes in a piece; the first and the last vertex of both are read by index. -/
def attachAt? (s : Strand) (piece : Polycurve) : Option (Option Strand) := do
  let first ← s.vertices[0]?
  let last ← s.vertices[s.vertices.length - 1]?
  let start ← piece.vertices[0]?
  let stop ← piece.vertices[piece.vertices.length - 1]?
  if last.distance start ≤ tolerance then return some (s.append (← ofCurve? piece))
  else if last.distance stop ≤ tolerance then return some (s.append (← ofCurve? piece.reversed))
  else if first.distance stop ≤ tolerance then return some (s.prepend (← ofCurve? piece))
  else if first.distance start ≤ tolerance then return some (s.prepend (← ofCurve? piece.reversed))
  else return none

def extendAt? (s : Strand) : List Polycurve → Option (Option (Strand × List Polycurve))
  | [] => some none
  | piece :: pieces => do
    match ← s.attachAt? piece with
    | some longer => return some (longer, pieces)
    | none => return (← s.extendAt? pieces).map fun (longer, rest) => (longer, piece :: rest)

variable {s : Strand} {curve : Polycurve} {pieces : List Polycurve}

theorem ofCurve?_eq (h : curve.WellFormed) : ofCurve? curve = some (ofCurve curve) := by
  have := h.vertices
  have hbulges : curve.bulges.length = curve.vertices.length := by simp
  rw [ofCurve?, if_neg (by omega), ofCurve, List.dropLast_eq_take, hbulges]

theorem attachAt?_eq (hs : s.Aligned) (hc : curve.WellFormed) : s.attachAt? curve = some (s.attach? curve) := by
  have hv := hs.vertices
  have hcv := hc.vertices
  unfold attachAt? attach?
  simp only [List.head?_eq_getElem?, List.getLast?_eq_getElem?]
  rw [List.getElem?_eq_getElem (by omega : 0 < s.vertices.length),
    List.getElem?_eq_getElem (by omega : s.vertices.length - 1 < s.vertices.length),
    List.getElem?_eq_getElem (by omega : 0 < curve.vertices.length),
    List.getElem?_eq_getElem (by omega : curve.vertices.length - 1 < curve.vertices.length),
    ofCurve?_eq hc, ofCurve?_eq hc.reversed]
  simp only [meets, Option.bind_eq_bind, Option.bind_some, decide_eq_true_eq]
  split
  · rfl
  · split
    · rfl
    · split
      · rfl
      · split <;> rfl

theorem extendAt?_eq (hs : s.Aligned) (hp : ∀ c ∈ pieces, c.WellFormed) :
    s.extendAt? pieces = some (s.extend? pieces) := by
  induction pieces with
  | nil => rfl
  | cons piece pieces ih =>
    obtain ⟨hpiece, hpieces⟩ := List.forall_mem_cons.mp hp
    rw [extendAt?, extend?, attachAt?_eq hs hpiece, ih hpieces]
    cases s.attach? piece <;> rfl

end Strand

end Sketchwork
