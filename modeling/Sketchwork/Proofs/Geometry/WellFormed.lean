/-
  Sketchwork.Proofs.Geometry.WellFormed — curves with at least one edge.

  A curve is well formed when it has two vertices or more; that it has a bulge for each comes with
  its corners (`length_bulges`). Curves under way while joining have two lists and are aligned: a
  bulge for every step from a vertex to the next.

  Proved: closing, moving, turning round and rounding keep curves well formed; what is joined of
  such curves is such curves (`wellFormed_of_mem_join`). The strands that come up while pieces are
  joined (`Strand.Reached`) are all aligned, and what waits beside them are pieces
  (`Strand.Reached.aligned`).
-/
import Mathlib.Data.List.Forall2
import Mathlib.Data.List.Rotate
import Sketchwork.Geometry.Joining
import Sketchwork.Geometry.Rounding
import Sketchwork.Proofs.Results

namespace Sketchwork

/-! ## Curves -/

structure Polycurve.WellFormed (curve : Polycurve) : Prop where
  vertices : 2 ≤ curve.vertices.length

namespace Polycurve

@[simp] theorem length_vertices (curve : Polycurve) : curve.vertices.length = curve.corners.length :=
  List.length_map _

@[simp] theorem length_bulges (curve : Polycurve) : curve.bulges.length = curve.corners.length :=
  List.length_map _

variable {curve : Polycurve}

theorem WellFormed.of_corners (h : 2 ≤ curve.corners.length) : curve.WellFormed :=
  ⟨by simpa using h⟩

theorem WellFormed.corners (h : curve.WellFormed) : 2 ≤ curve.corners.length := by
  simpa using h.vertices

theorem wellFormed_ofBulges {vertices : List Position} (h : 2 ≤ vertices.length) (bulges : List Float) (closed : Bool) :
    (ofBulges vertices bulges closed).WellFormed := by
  refine .of_corners ?_
  rw [← length_vertices, vertices_ofBulges]
  exact h

theorem wellFormed_straight {vertices : List Position} (h : 2 ≤ vertices.length) (closed : Bool) :
    (straight vertices closed).WellFormed :=
  wellFormed_ofBulges h [] closed

theorem WellFormed.close (h : curve.WellFormed) : curve.close.WellFormed :=
  .of_corners h.corners

theorem WellFormed.transform (h : curve.WellFormed) (t : Similarity Float) : (curve.transform t).WellFormed := by
  refine .of_corners ?_
  rw [Polycurve.transform, List.length_map]
  exact h.corners

/-- Turning round keeps a bulge for every vertex, none has to be filled up. -/
theorem length_flipped (bulges : List Float) :
    (bulges.dropLast.reverse ++ bulges.getLast?.toList).length = bulges.length := by
  cases bulges with
  | nil => rfl
  | cons first rest => simp [List.getLast?_cons]

theorem vertices_reversed (curve : Polycurve) : curve.reversed.vertices = curve.vertices.reverse :=
  vertices_ofBulges _ _ _

theorem bulges_reversed (curve : Polycurve) :
    curve.reversed.bulges =
      (curve.bulges.map Edge.flipBulge).dropLast.reverse ++ (curve.bulges.map Edge.flipBulge).getLast?.toList := by
  refine bulges_ofBulges ?_ _
  rw [length_flipped]
  simp

theorem WellFormed.reversed (h : curve.WellFormed) : curve.reversed.WellFormed :=
  wellFormed_ofBulges (by simpa using h.corners) _ _

/-! ## Rounding -/

theorem rotateLeft_eq_rotate {α : Type} (l : List α) : l.rotateLeft = l.rotate 1 := by
  match l with
  | [] => rfl
  | [_] => rw [List.rotate_singleton]; rfl
  | first :: second :: rest =>
    unfold List.rotateLeft
    dsimp only
    rw [if_neg (by simp), List.rotate_eq_drop_append_take_mod]

theorem rotateRight_eq_rotate {α : Type} (l : List α) : l.rotateRight = l.rotate (l.length - 1) := by
  unfold List.rotateRight
  by_cases h : l.length ≤ 1
  · dsimp only
    rw [if_pos h, Nat.sub_eq_zero_of_le h, List.rotate_zero]
  · dsimp only
    rw [if_neg h, Nat.mod_eq_of_lt (by omega), List.rotate_eq_drop_append_take (by omega)]

theorem length_hasBothEdges (h : curve.WellFormed) : curve.hasBothEdges.length = curve.corners.length := by
  have := h.corners
  unfold hasBothEdges
  split
  · rw [List.length_map]
  · simp only [List.length_append, List.length_cons, List.length_replicate, List.length_nil]
    omega

/-- There is an arc or none for every corner. -/
theorem length_fillets (h : curve.WellFormed) {radius : Float} {arcs : List (Option (Fillet Float))}
    (harcs : curve.fillets radius = .ok arcs) : arcs.length = curve.corners.length := by
  rw [← (forall₂_of_mapM_eq_ok harcs).length_eq]
  simp [length_hasBothEdges h, rotateLeft_eq_rotate, rotateRight_eq_rotate]

theorem one_le_length_cut (corner : Corner) (arc : Option (Fillet Float)) : 1 ≤ (cut corner arc).length := by
  cases arc <;> simp [cut]

theorem WellFormed.of_rounded (h : curve.WellFormed) {radius : Float} {out : Polycurve}
    (hout : curve.rounded radius = .ok out) : out.WellFormed := by
  unfold rounded at hout
  split at hout
  · cases hout
    exact h
  · split at hout
    · cases hout
    · rename_i arcs harcs
      split at hout
      · cases hout
      · cases hout
        have hzip : (curve.corners.zip arcs).length = curve.corners.length := by
          rw [List.length_zip, length_fillets h harcs, Nat.min_self]
        have hcut (l : List (Corner × Option (Fillet Float))) :
            l.length ≤ (l.flatMap fun entry => cut entry.1 entry.2).length := by
          induction l with
          | nil => exact Nat.le_refl _
          | cons entry l ih =>
            have := one_le_length_cut entry.1 entry.2
            rw [List.flatMap_cons, List.length_append, List.length_cons]
            omega
        exact .of_corners (Nat.le_trans (hzip ▸ h.corners) (hcut _))

end Polycurve

/-! ## Strands -/

/-- A bulge for every step from a vertex to the next. -/
structure Strand.Aligned (s : Strand) : Prop where
  vertices : 2 ≤ s.vertices.length
  bulges : s.bulges.length + 1 = s.vertices.length

namespace Strand

variable {s t piece : Strand} {curve : Polycurve} {pieces rest : List Polycurve}

theorem aligned_ofCurve (h : curve.WellFormed) : (ofCurve curve).Aligned := by
  have := h.corners
  refine ⟨h.vertices, ?_⟩
  simp only [ofCurve, List.length_dropLast, Polycurve.length_bulges, Polycurve.length_vertices]
  omega

/-- One vertex stands for the two ends that meet. -/
theorem Aligned.append (hs : s.Aligned) (hp : piece.Aligned) : (s.append piece).Aligned := by
  have := hs.vertices
  have := hs.bulges
  have := hp.bulges
  constructor <;> simp only [Strand.append, List.length_append, List.length_tail] <;> omega

theorem Aligned.prepend (hs : s.Aligned) (hp : piece.Aligned) : (s.prepend piece).Aligned := by
  have := hs.vertices
  have := hs.bulges
  have := hp.bulges
  constructor <;> simp only [Strand.prepend, List.length_append, List.length_dropLast] <;> omega

theorem Aligned.of_attach? (hs : s.Aligned) (hc : curve.WellFormed) (h : s.attach? curve = some t) : t.Aligned := by
  unfold attach? at h
  dsimp only at h
  split at h
  · cases h
    exact hs.append (aligned_ofCurve hc)
  · split at h
    · cases h
      exact hs.append (aligned_ofCurve hc.reversed)
    · split at h
      · cases h
        exact hs.prepend (aligned_ofCurve hc)
      · split at h
        · cases h
          exact hs.prepend (aligned_ofCurve hc.reversed)
        · cases h

theorem Aligned.of_extend? (hs : s.Aligned) (hp : ∀ c ∈ pieces, c.WellFormed) (h : s.extend? pieces = some (t, rest)) :
    t.Aligned ∧ ∀ c ∈ rest, c.WellFormed := by
  induction pieces generalizing rest with
  | nil => cases h
  | cons piece pieces ih =>
    obtain ⟨hpiece, hpieces⟩ := List.forall_mem_cons.mp hp
    rw [extend?] at h
    split at h
    · rename_i longer hlonger
      cases h
      exact ⟨hs.of_attach? hpiece hlonger, hpieces⟩
    · obtain ⟨⟨longer, left⟩, hextend, heq⟩ := Option.map_eq_some_iff.mp h
      cases heq
      obtain ⟨ht, hleft⟩ := ih hpieces hextend
      exact ⟨ht, List.forall_mem_cons.mpr ⟨hpiece, hleft⟩⟩

theorem Aligned.grow (hs : s.Aligned) (hp : ∀ c ∈ pieces, c.WellFormed) :
    (s.grow pieces).1.Aligned ∧ ∀ c ∈ (s.grow pieces).2, c.WellFormed := by
  fun_induction Strand.grow s pieces with
  | case1 | case2 => exact ⟨hs, hp⟩
  | case3 s pieces _ longer rest h ih =>
    obtain ⟨hlonger, hrest⟩ := hs.of_extend? hp h
    exact ih hlonger hrest

/-- A loop gives its last vertex up and has two left. -/
theorem Aligned.finish (hs : s.Aligned) : s.finish.WellFormed := by
  unfold Strand.finish
  split
  · rename_i hloop
    have : 2 < s.vertices.length := by
      unfold isLoop at hloop
      simp only [Bool.and_eq_true, decide_eq_true_eq] at hloop
      exact hloop.1
    refine Polycurve.wellFormed_ofBulges ?_ _ _
    rw [List.length_dropLast]
    omega
  · exact Polycurve.wellFormed_ofBulges hs.vertices _ _

/-- The strands that come up while `pieces` are joined, with the pieces that are left beside them. -/
inductive Reached : List Polycurve → Strand → List Polycurve → Prop
  | first {piece : Polycurve} {pieces : List Polycurve} : Reached (piece :: pieces) (ofCurve piece) pieces
  | longer {pieces rest rest' : List Polycurve} {s t : Strand} :
      Reached pieces s rest → s.isLoop = false → s.extend? rest = some (t, rest') → Reached pieces t rest'
  | next {pieces rest : List Polycurve} {s : Strand} {piece : Polycurve} : Reached pieces s (piece :: rest) →
      s.isLoop = true ∨ s.extend? (piece :: rest) = none → Reached pieces (ofCurve piece) rest

theorem Reached.aligned (h : Reached pieces s rest) (hp : ∀ c ∈ pieces, c.WellFormed) :
    s.Aligned ∧ ∀ c ∈ rest, c.WellFormed := by
  induction h with
  | first =>
    obtain ⟨hpiece, hrest⟩ := List.forall_mem_cons.mp hp
    exact ⟨aligned_ofCurve hpiece, hrest⟩
  | longer _ _ hextend ih =>
    obtain ⟨hs, hrest⟩ := ih hp
    exact hs.of_extend? hrest hextend
  | next _ _ ih =>
    obtain ⟨hpiece, hrest⟩ := List.forall_mem_cons.mp (ih hp).2
    exact ⟨aligned_ofCurve hpiece, hrest⟩

end Strand

theorem Polycurve.wellFormed_of_mem_join {pieces : List Polycurve} (hp : ∀ c ∈ pieces, c.WellFormed) :
    ∀ c ∈ join pieces, c.WellFormed := by
  fun_induction join pieces with
  | case1 => nofun
  | case2 piece pieces grown ih =>
    obtain ⟨hpiece, hpieces⟩ := List.forall_mem_cons.mp hp
    obtain ⟨hgrown, hrest⟩ := (Strand.aligned_ofCurve hpiece).grow hpieces
    exact List.forall_mem_cons.mpr ⟨hgrown.finish, ih hrest⟩

end Sketchwork
