/-
  Sketchwork.Proofs.Geometry.Chains — joining uses every edge once.

  A piece is laid forwards or backwards (`Laid`): backwards its vertices and its edges come in
  the other order and every edge bends the other way. Pieces stand end to end (`EndToEnd`) in a
  list of vertices when it is their vertices one behind the other, with one vertex for the two
  ends of neighbours that meet. A strand is made of laid pieces (`Strand.MadeOf`) when their
  vertices stand end to end in its own and their bulges, one behind the other, are its bulges.

  Proved: taking in a piece puts it behind or before the pieces that the strand is made of
  (`MadeOf.of_attach?`), growing keeps what is used and what is left together a rearrangement of
  the pieces (`MadeOf.grow`), and so the pieces fall into groups, one for each joined curve,
  which runs along it (`exists_groups`). No edge is lost or doubled (`length_edges_of_groups`).
-/
import Sketchwork.Proofs.Geometry.WellFormed

namespace Sketchwork

/-! ## Edges from the first vertex to the last -/

namespace Polycurve

variable {curve : Polycurve} {vertices : List Position} {bulges : List Float}

/-- The edges from the first vertex to the last, without the one that closes a curve. -/
def steps (curve : Polycurve) : List Edge :=
  edgesAlong curve.corners

theorem edges_of_open (h : curve.closed = false) : curve.edges = curve.steps := by
  obtain ⟨corners, closed⟩ := curve
  subst h
  match corners with
  | [] | [_] => rfl
  | _ :: _ :: _ => rfl

theorem bulges_edgesAlong (corners : List Corner) :
    (edgesAlong corners).map (·.bulge) = (corners.map (·.bulge)).dropLast := by
  induction corners using edgesAlong.induct with
  | case1 c d rest ih =>
    rw [edgesAlong, List.map_cons, ih]
    rfl
  | case2 corners hshort =>
    match corners, hshort with
    | [], _ => rfl
    | [_], _ => rfl
    | c :: d :: rest, h => exact absurd rfl (h c d rest)

theorem bulges_steps (curve : Polycurve) : curve.steps.map (·.bulge) = curve.bulges.dropLast :=
  bulges_edgesAlong curve.corners

/-- A closed curve has an edge from every corner. -/
theorem bulges_edges_of_closed (hv : 2 ≤ curve.corners.length) (h : curve.closed = true) :
    curve.edges.map (·.bulge) = curve.bulges := by
  obtain ⟨corners, closed⟩ := curve
  subst h
  match corners, hv with
  | c :: d :: rest, _ =>
    show (edgesAlong (c :: d :: rest ++ [c])).map (·.bulge) = _
    rw [bulges_edgesAlong, List.map_append, List.map_singleton, List.dropLast_concat]
    rfl

/-- A missing last bulge is filled up with a straight one. -/
theorem bulges_cornersOf_of_short (h : bulges.length + 1 = vertices.length) :
    (cornersOf vertices bulges).map (·.bulge) = bulges ++ [0.0] := by
  induction vertices generalizing bulges with
  | nil => cases h
  | cons p vertices ih =>
    cases bulges with
    | nil =>
      have : vertices = [] := List.length_eq_zero_iff.mp (by simpa using h.symm)
      subst this
      rfl
    | cons b bulges =>
      rw [cornersOf, List.map_cons, ih (by simpa using h)]
      rfl

end Polycurve

/-! ## Pieces end to end -/

/-- A piece as it stands in a joined curve. -/
structure Laid where
  piece : Polycurve
  backwards : Bool

namespace Laid

def vertices (laid : Laid) : List Position :=
  if laid.backwards then laid.piece.vertices.reverse else laid.piece.vertices

/-- One bulge for every edge; an edge that is run through backwards bends the other way. -/
def bulges (laid : Laid) : List Float :=
  let bulges := laid.piece.steps.map (·.bulge)
  if laid.backwards then (bulges.map Edge.flipBulge).reverse else bulges

def strand (laid : Laid) : Strand :=
  ⟨laid.vertices, laid.bulges⟩

theorem length_vertices (laid : Laid) : laid.vertices.length = laid.piece.vertices.length := by
  unfold vertices
  split
  · exact List.length_reverse
  · rfl

theorem length_bulges (laid : Laid) : laid.bulges.length = laid.piece.steps.length := by
  unfold bulges
  dsimp only
  split
  · rw [List.length_reverse, List.length_map, List.length_map]
  · exact List.length_map _

theorem ofCurve_eq (piece : Polycurve) : Strand.ofCurve piece = (⟨piece, false⟩ : Laid).strand := by
  unfold Strand.ofCurve strand vertices bulges
  rw [Polycurve.bulges_steps]
  rfl

theorem ofCurve_reversed (piece : Polycurve) : Strand.ofCurve piece.reversed = (⟨piece, true⟩ : Laid).strand := by
  have hlast (bulges : List Float) :
      (bulges.dropLast.reverse ++ bulges.getLast?.toList).dropLast = bulges.dropLast.reverse := by
    cases bulges with
    | nil => rfl
    | cons b bulges => rw [List.getLast?_cons, Option.toList_some, List.dropLast_concat]
  unfold Strand.ofCurve strand vertices bulges
  rw [Polycurve.bulges_steps, Polycurve.vertices_reversed, Polycurve.bulges_reversed, hlast, ← List.map_dropLast]
  rfl

end Laid

namespace Strand

/-- One of two ends that meet. -/
def Merges (p q kept : Position) : Prop :=
  kept = p ∧ p.distance q ≤ tolerance ∨ kept = q ∧ q.distance p ≤ tolerance

/-- The lists of vertices one behind the other: where the last vertex of one meets the first of
    the next, one of the two stands for both. -/
inductive EndToEnd : List (List Position) → List Position → Prop
  | single (vertices : List Position) : EndToEnd [vertices] vertices
  | cons {front back joined : List Position} {rest : List (List Position)} {p q kept : Position} :
      Merges p q kept → EndToEnd ((q :: back) :: rest) (q :: joined) →
      EndToEnd ((front ++ [p]) :: (q :: back) :: rest) (front ++ kept :: joined)

theorem EndToEnd.two_le_length {runs : List (List Position)} {vertices : List Position} (h : EndToEnd runs vertices)
    (hr : ∀ run ∈ runs, 2 ≤ run.length) : 2 ≤ vertices.length := by
  induction h with
  | single vertices => exact hr vertices List.mem_cons_self
  | cons _ _ ih =>
    have := ih fun run hrun => hr run (List.mem_cons_of_mem _ hrun)
    rw [List.length_append, List.length_cons] at *
    omega

/-- The first list keeps its first vertex. -/
theorem EndToEnd.head {runs : List (List Position)} {vertices : List Position} (h : EndToEnd runs vertices)
    (hr : ∀ run ∈ runs, 2 ≤ run.length) :
    ∃ q back rest joined, runs = (q :: back) :: rest ∧ vertices = q :: joined := by
  cases h with
  | single =>
    match vertices, hr vertices List.mem_cons_self with
    | q :: back, _ => exact ⟨q, back, [], back, rfl, rfl⟩
  | @cons front _ _ _ p =>
    match front, hr (front ++ [p]) List.mem_cons_self with
    | first :: front, _ => exact ⟨first, _, _, _, rfl, rfl⟩

/-- Another list goes behind. The ends of a list are two vertices, so the vertex that meets it was
    not merged away. -/
theorem EndToEnd.snoc {runs : List (List Position)} {vertices front back : List Position} {p q : Position}
    (h : EndToEnd runs vertices) (hr : ∀ run ∈ runs, 2 ≤ run.length) (hv : vertices = front ++ [p])
    (hm : p.distance q ≤ tolerance) : EndToEnd (runs ++ [q :: back]) (front ++ p :: back) := by
  induction h generalizing front with
  | single vertices =>
    subst hv
    exact .cons (.inl ⟨rfl, hm⟩) (.single (q :: back))
  | @cons front₀ back₀ joined rest p₀ q₀ kept hmerges hrest ih =>
    have hr := fun run hrun => hr run (List.mem_cons_of_mem _ hrun)
    have hlong := hrest.two_le_length hr
    obtain ⟨middle, last, rfl⟩ : ∃ middle last, joined = middle ++ [last] := by
      rcases List.eq_nil_or_concat joined with rfl | ⟨middle, last, rfl⟩
      · exact absurd hlong (by simp)
      · exact ⟨middle, last, List.concat_eq_append⟩
    have hends : front₀ ++ kept :: middle = front ∧ last = p := by
      have heq : (front₀ ++ kept :: middle) ++ [last] = front ++ [p] := by
        simpa using hv
      obtain ⟨hfront, hlast⟩ := List.append_inj' heq rfl
      exact ⟨hfront, List.singleton_inj.mp hlast⟩
    obtain ⟨rfl, rfl⟩ := hends
    have hnext : EndToEnd ((q₀ :: back₀) :: rest ++ [q :: back]) (q₀ :: middle ++ last :: back) := ih hr rfl
    rw [List.append_assoc]
    exact .cons hmerges hnext

/-! ## What a strand is made of -/

theorem meets_iff {o o' : Option Position} :
    meets o o' = true ↔ ∃ p q, o = some p ∧ o' = some q ∧ p.distance q ≤ tolerance := by
  cases o with
  | none => simp [meets]
  | some p =>
    cases o' with
    | none => simp [meets]
    | some q => simp [meets]

structure MadeOf (s : Strand) (group : List Laid) : Prop where
  pieces : ∀ laid ∈ group, laid.piece.WellFormed
  vertices : EndToEnd (group.map Laid.vertices) s.vertices
  bulges : s.bulges = group.flatMap Laid.bulges

variable {s t : Strand} {group : List Laid} {laid : Laid} {piece : Polycurve} {pieces rest : List Polycurve}

theorem madeOf_strand (h : laid.piece.WellFormed) : laid.strand.MadeOf [laid] :=
  ⟨List.forall_mem_singleton.mpr h, .single laid.vertices, (List.flatMap_singleton ..).symm⟩

theorem MadeOf.two_le_runs (h : s.MadeOf group) : ∀ run ∈ group.map Laid.vertices, 2 ≤ run.length := by
  intro run hrun
  obtain ⟨laid, hlaid, rfl⟩ := List.mem_map.mp hrun
  rw [laid.length_vertices]
  exact (h.pieces laid hlaid).vertices

theorem MadeOf.append (h : s.MadeOf group) (hp : laid.piece.WellFormed)
    (hm : meets s.vertices.getLast? laid.vertices.head? = true) : (s.append laid.strand).MadeOf (group ++ [laid]) := by
  obtain ⟨p, q, hlast, hfirst, hm⟩ := meets_iff.mp hm
  obtain ⟨front, hfront⟩ := List.getLast?_eq_some_iff.mp hlast
  obtain ⟨back, hback⟩ := List.head?_eq_some_iff.mp hfirst
  refine ⟨?_, ?_, ?_⟩
  · intro l hl
    rcases List.mem_append.mp hl with hl | hl
    · exact h.pieces l hl
    · rwa [List.mem_singleton.mp hl]
  · rw [List.map_append, List.map_singleton, hback]
    have hvertices : (s.append laid.strand).vertices = front ++ p :: back := by
      show s.vertices ++ laid.vertices.tail = _
      rw [hfront, hback, List.tail_cons, List.append_assoc, List.singleton_append]
    rw [hvertices]
    exact h.vertices.snoc h.two_le_runs hfront hm
  · show s.bulges ++ laid.bulges = _
    rw [h.bulges, List.flatMap_append, List.flatMap_singleton]

theorem MadeOf.prepend (h : s.MadeOf group) (hp : laid.piece.WellFormed)
    (hm : meets s.vertices.head? laid.vertices.getLast? = true) : (s.prepend laid.strand).MadeOf (laid :: group) := by
  obtain ⟨q, p, hfirst, hlast, hm⟩ := meets_iff.mp hm
  obtain ⟨front, hfront⟩ := List.getLast?_eq_some_iff.mp hlast
  obtain ⟨q', back, rest, joined, hruns, hvertices⟩ := h.vertices.head h.two_le_runs
  obtain rfl : q' = q := by
    rw [hvertices] at hfirst
    exact Option.some.inj hfirst
  refine ⟨List.forall_mem_cons.mpr ⟨hp, h.pieces⟩, ?_, ?_⟩
  · have := h.vertices
    rw [hruns, hvertices] at this
    show EndToEnd (laid.vertices :: group.map Laid.vertices) (laid.vertices.dropLast ++ s.vertices)
    rw [hfront, hruns, hvertices, List.dropLast_concat]
    exact .cons (.inr ⟨rfl, hm⟩) this
  · show laid.bulges ++ s.bulges = _
    rw [h.bulges, List.flatMap_cons]

/-- A piece that is taken in comes behind the others, or before them, and one way round. -/
theorem attach?_cases (h : s.attach? piece = some t) :
    ∃ backwards, let laid : Laid := ⟨piece, backwards⟩
      (meets s.vertices.getLast? laid.vertices.head? = true ∧ t = s.append laid.strand) ∨
        (meets s.vertices.head? laid.vertices.getLast? = true ∧ t = s.prepend laid.strand) := by
  unfold attach? at h
  rw [Laid.ofCurve_reversed, Laid.ofCurve_eq] at h
  dsimp only at h
  split at h
  · rename_i hm
    exact ⟨false, .inl ⟨hm, (Option.some.inj h).symm⟩⟩
  · split at h
    · rename_i hm
      refine ⟨true, .inl ⟨?_, (Option.some.inj h).symm⟩⟩
      show meets _ piece.vertices.reverse.head? = true
      rwa [List.head?_reverse]
    · split at h
      · rename_i hm
        exact ⟨false, .inr ⟨hm, (Option.some.inj h).symm⟩⟩
      · split at h
        · rename_i hm
          refine ⟨true, .inr ⟨?_, (Option.some.inj h).symm⟩⟩
          show meets _ piece.vertices.reverse.getLast? = true
          rwa [List.getLast?_reverse]
        · cases h

theorem MadeOf.of_attach? (hs : s.MadeOf group) (hp : piece.WellFormed) (h : s.attach? piece = some t) :
    ∃ group', t.MadeOf group' ∧ (group'.map (·.piece)).Perm (piece :: group.map (·.piece)) := by
  obtain ⟨backwards, ⟨hm, rfl⟩ | ⟨hm, rfl⟩⟩ := attach?_cases h
  · refine ⟨_, hs.append hp hm, ?_⟩
    rw [List.map_append]
    exact List.perm_append_singleton _ _
  · exact ⟨_, hs.prepend hp hm, .refl _⟩

/-- The piece that is taken in is the first that fits; the others stay in order. -/
theorem exists_of_extend? (h : s.extend? pieces = some (t, rest)) :
    ∃ before piece after, pieces = before ++ piece :: after ∧ rest = before ++ after ∧
      (∀ p ∈ before, s.attach? p = none) ∧ s.attach? piece = some t := by
  induction pieces generalizing rest with
  | nil => cases h
  | cons first pieces ih =>
    rw [extend?] at h
    split at h
    · rename_i longer hlonger
      cases h
      exact ⟨[], first, pieces, rfl, rfl, List.forall_mem_nil _, hlonger⟩
    · rename_i hnone
      obtain ⟨⟨longer, left⟩, hextend, heq⟩ := Option.map_eq_some_iff.mp h
      cases heq
      obtain ⟨before, piece, after, rfl, rfl, hbefore, hpiece⟩ := ih hextend
      exact ⟨first :: before, piece, after, rfl, rfl, List.forall_mem_cons.mpr ⟨hnone, hbefore⟩, hpiece⟩

theorem MadeOf.grow (hs : s.MadeOf group) (hp : ∀ p ∈ pieces, p.WellFormed) :
    ∃ group', (s.grow pieces).1.MadeOf group' ∧
      (group'.map (·.piece) ++ (s.grow pieces).2).Perm (group.map (·.piece) ++ pieces) := by
  fun_induction Strand.grow s pieces generalizing group with
  | case1 | case2 => exact ⟨group, hs, .refl _⟩
  | case3 s pieces _ longer rest h ih =>
    obtain ⟨before, piece, after, rfl, rfl, -, hattach⟩ := exists_of_extend? h
    have hpiece : piece.WellFormed := hp piece (by simp)
    obtain ⟨group₁, hlonger, hperm₁⟩ := hs.of_attach? hpiece hattach
    obtain ⟨group', hgrown, hperm⟩ := ih hlonger fun p h => hp p (by
      rcases List.mem_append.mp h with h | h <;> simp [h])
    refine ⟨group', hgrown, hperm.trans ?_⟩
    calc group₁.map (·.piece) ++ (before ++ after)
        |>.Perm (piece :: group.map (·.piece) ++ (before ++ after)) := hperm₁.append_right _
      _ |>.Perm (group.map (·.piece) ++ piece :: (before ++ after)) := List.perm_middle.symm
      _ |>.Perm (group.map (·.piece) ++ (before ++ piece :: after)) := List.perm_middle.symm.append_left _

/-! ## What a joined curve runs along -/

/-- The curve runs along the laid pieces: its vertices are theirs, end to end, and when they come
    back to the first vertex the last one is dropped; its edges bend as theirs do. -/
structure RunsAlong (group : List Laid) (curve : Polycurve) : Prop where
  bulges : curve.edges.map (·.bulge) = group.flatMap Laid.bulges
  vertices : ∃ vertices, EndToEnd (group.map Laid.vertices) vertices ∧
    (curve.closed = false ∧ curve.vertices = vertices ∨
      curve.closed = true ∧ curve.vertices = vertices.dropLast ∧ 2 < vertices.length ∧
        ∃ p q, vertices.head? = some p ∧ vertices.getLast? = some q ∧ p.distance q ≤ tolerance)

theorem MadeOf.finish (h : s.MadeOf group) (hs : s.Aligned) : RunsAlong group s.finish := by
  have hlong := hs.vertices
  have hbulges := hs.bulges
  by_cases hloop : s.isLoop = true
  · have hfinish : s.finish = .ofBulges s.vertices.dropLast s.bulges true := if_pos hloop
    have hloop := hloop
    rw [isLoop, Bool.and_eq_true, decide_eq_true_eq, meets_iff] at hloop
    rw [hfinish]
    refine ⟨?_, s.vertices, h.vertices, .inr ⟨rfl, Polycurve.vertices_ofBulges _ _ _, hloop⟩⟩
    rw [Polycurve.bulges_edges_of_closed _ rfl, Polycurve.bulges_ofBulges, h.bulges]
    · rw [List.length_dropLast]
      omega
    · rw [← Polycurve.length_vertices, Polycurve.vertices_ofBulges, List.length_dropLast]
      omega
  · have hfinish : s.finish = .ofBulges s.vertices s.bulges false := if_neg hloop
    rw [hfinish]
    refine ⟨?_, s.vertices, h.vertices, .inl ⟨rfl, Polycurve.vertices_ofBulges _ _ _⟩⟩
    rw [Polycurve.edges_of_open rfl, Polycurve.bulges_steps]
    show ((Polycurve.cornersOf s.vertices s.bulges).map (·.bulge)).dropLast = _
    rw [Polycurve.bulges_cornersOf_of_short hbulges, List.dropLast_concat, h.bulges]

end Strand

namespace Polycurve

variable {pieces : List Polycurve}

/-- The pieces fall into groups, one for each joined curve, which runs along its group. -/
theorem exists_groups (hp : ∀ piece ∈ pieces, piece.WellFormed) :
    ∃ groups : List (List Laid), (groups.flatten.map (·.piece)).Perm pieces ∧
      List.Forall₂ Strand.RunsAlong groups (join pieces) := by
  fun_induction join pieces with
  | case1 => exact ⟨[], .nil, .nil⟩
  | case2 piece pieces grown ih =>
    obtain ⟨hpiece, hpieces⟩ := List.forall_mem_cons.mp hp
    have hfirst : (Strand.ofCurve piece).MadeOf [⟨piece, false⟩] := by
      rw [Laid.ofCurve_eq]
      exact Strand.madeOf_strand hpiece
    obtain ⟨group, hmade, hperm⟩ := hfirst.grow hpieces
    obtain ⟨haligned, hrest⟩ := (Strand.aligned_ofCurve hpiece).grow hpieces
    obtain ⟨groups, hgroups, halong⟩ := ih hrest
    refine ⟨group :: groups, ?_, .cons (hmade.finish haligned) halong⟩
    rw [List.flatten_cons, List.map_append]
    exact (hgroups.append_left _).trans hperm

/-- There are as many edges as there were. -/
theorem length_edges_of_groups {groups : List (List Laid)} {curves : List Polycurve}
    (hperm : (groups.flatten.map (·.piece)).Perm pieces) (halong : List.Forall₂ Strand.RunsAlong groups curves) :
    (curves.flatMap edges).length = (pieces.flatMap steps).length := by
  have hcurves : (curves.flatMap edges).map (·.bulge) = groups.flatten.flatMap Laid.bulges := by
    induction halong generalizing pieces with
    | nil => rfl
    | cons hgroup _ ih =>
      rw [List.flatMap_cons, List.map_append, hgroup.bulges, List.flatten_cons, List.flatMap_append, ih (.refl _)]
  have hlaid (group : List Laid) :
      (group.flatMap Laid.bulges).length = ((group.map (·.piece)).flatMap steps).length := by
    induction group with
    | nil => rfl
    | cons laid group ih =>
      rw [List.flatMap_cons, List.length_append, laid.length_bulges, ih, List.map_cons, List.flatMap_cons,
        List.length_append]
  calc (curves.flatMap edges).length = ((curves.flatMap edges).map (·.bulge)).length := (List.length_map _).symm
    _ = ((groups.flatten.map (·.piece)).flatMap steps).length := by rw [hcurves, hlaid]
    _ = (pieces.flatMap steps).length := (hperm.flatMap_right steps).length_eq

end Polycurve

end Sketchwork
