/-
  Sketchwork.Proofs.Scene.DrawingOrder — the order children are drawn in.

  Children are sorted by the bits of their places, which is finer than sorting by the numbers:
  `-0` and `0` are one number, and the sort puts `-0` first. So it is stable for children of the
  same double (`filter_childrenByZ_of_eq`), and that is being stable for children of equal
  places, with the exception of zero.

  Proved: for finite places, `childrenByZ` has the children in ascending order, those of equal
  places other than zero in the order they were added in, and at zero those at `-0` in front of
  those at `0` (`childrenByZ_of_finite`); without the exception this does not hold
  (`negative_zero_drawn_first`).
-/
import Sketchwork.Proofs.Geometry.Doubles
import Sketchwork.Proofs.Scene.Order

namespace Sketchwork

theorem eq_filter_append_of_pairwise {α : Type} {p : α → Bool} {l : List α}
    (h : l.Pairwise fun a b => p b = true → p a = true) : l = l.filter p ++ l.filter (!p ·) := by
  induction l with
  | nil => rfl
  | cons a l ih =>
    obtain ⟨hfirst, hrest⟩ := List.pairwise_cons.mp h
    cases ha : p a with
    | true =>
      rw [List.filter_cons_of_pos ha, List.filter_cons_of_neg (by simp [ha]), List.cons_append, ← ih hrest]
    | false =>
      -- nothing behind `a` passes the test either
      have hnone : l.filter p = [] := List.filter_eq_nil_iff.mpr fun b hb hpb => by
        cases (hfirst b hb hpb).symm.trans ha
      have hall : l.filter (!p ·) = l := by
        conv_rhs => rw [ih hrest, hnone]
        rfl
      rw [List.filter_cons_of_neg (by simp [ha]), List.filter_cons_of_pos (by simp [ha]), hnone, hall]
      rfl

namespace Node

variable {node : Node}

theorem childrenByZ_pairwise (node : Node) :
    node.childrenByZ.Pairwise fun a b => Real64.totalLe a.z b.z = true := by
  unfold childrenByZ
  apply List.pairwise_mergeSort
  · intro a b c
    exact Real64.totalLe_trans a.z b.z c.z
  · intro a b
    exact Real64.totalLe_total a.z b.z

/-- Children of one double are drawn in the order they were added in. -/
theorem filter_childrenByZ_of_eq {p : Node → Bool}
    (h : ∀ a ∈ node.children, ∀ b ∈ node.children, p a = true → p b = true → a.z = b.z) :
    node.childrenByZ.filter p = node.children.filter p := by
  rw [filter_childrenByZ]
  apply List.mergeSort_of_pairwise
  apply List.pairwise_of_forall_mem_list
  intro a ha b hb
  obtain ⟨ha, hpa⟩ := List.mem_filter.mp ha
  obtain ⟨hb, hpb⟩ := List.mem_filter.mp hb
  rw [h a ha b hb hpa hpb]
  exact decide_eq_true (Int.le_refl _)

theorem filter_childrenByZ_place (h : ∀ child ∈ node.children, child.z.isFinite = true) {place : Float}
    (hne : (place == 0.0) = false) :
    node.childrenByZ.filter (·.z == place) = node.children.filter (·.z == place) := by
  apply filter_childrenByZ_of_eq
  intro a ha b hb hpa hpb
  have hplace := Real64.isFinite_of_beq (h a ha) hpa
  rw [Real64.eq_of_beq_of_finite (h a ha) hplace hpa hne, Real64.eq_of_beq_of_finite (h b hb) hplace hpb hne]

/-- At zero, children at `-0` are drawn in front of those at `0`. -/
theorem filter_childrenByZ_zero (h : ∀ child ∈ node.children, child.z.isFinite = true) :
    node.childrenByZ.filter (·.z == 0.0) =
      node.children.filter (·.z = -0.0) ++ node.children.filter (·.z = 0.0) := by
  have hzeros : ∀ child ∈ node.childrenByZ.filter (·.z == 0.0), child.z = 0.0 ∨ child.z = -0.0 := by
    intro child hchild
    obtain ⟨hmem, hzero⟩ := List.mem_filter.mp hchild
    exact Real64.eq_zero_or_of_beq_zero (h child (mem_childrenByZ.mp hmem)) hzero
  have hsorted : (node.childrenByZ.filter (·.z == 0.0)).Pairwise
      fun a b => decide (b.z = -0.0) = true → decide (a.z = -0.0) = true := by
    refine (node.childrenByZ_pairwise.filter _).imp_of_mem fun ha _ hle hb => ?_
    rw [of_decide_eq_true hb] at hle
    rcases hzeros _ ha with ha | ha
    · rw [ha] at hle
      cases hle
    · exact decide_eq_true ha
  have hpart (place : Float) (hplace : (place == 0.0) = true) :
      (node.childrenByZ.filter (·.z == 0.0)).filter (·.z = place) =
        node.children.filter (·.z = place) := by
    rw [List.filter_filter, ← filter_childrenByZ_of_eq]
    · apply List.filter_congr
      intro child _
      rw [Bool.and_eq_left_iff_imp]
      intro hchild
      rw [of_decide_eq_true hchild, hplace]
    · intro a _ b _ ha hb
      rw [of_decide_eq_true ha, of_decide_eq_true hb]
  have hrest : (node.childrenByZ.filter (·.z == 0.0)).filter (fun child => !decide (child.z = -0.0)) =
      (node.childrenByZ.filter (·.z == 0.0)).filter (·.z = 0.0) := by
    apply List.filter_congr
    intro child hchild
    rcases hzeros child hchild with hz | hz <;> rw [hz] <;> decide
  rw [eq_filter_append_of_pairwise hsorted, hpart (-0.0) (by decide), hrest, hpart 0.0 (by decide)]

/-- Children are drawn by their places, and those of equal places in the order they were added
    in, but that `-0` is in front of `0`. -/
theorem childrenByZ_of_finite (node : Node) (h : ∀ child ∈ node.children, child.z.isFinite = true) :
    node.childrenByZ.Perm node.children ∧
      node.childrenByZ.Pairwise (·.z ≤ ·.z) ∧
      (∀ place : Float, (place == 0.0) = false →
        node.childrenByZ.filter (·.z == place) = node.children.filter (·.z == place)) ∧
      node.childrenByZ.filter (·.z == 0.0) =
        node.children.filter (·.z = -0.0) ++ node.children.filter (·.z = 0.0) := by
  refine ⟨node.childrenByZ_perm, ?_, fun _ => filter_childrenByZ_place h, filter_childrenByZ_zero h⟩
  refine node.childrenByZ_pairwise.imp_of_mem fun ha hb hle => ?_
  exact Real64.le_of_totalLe (h _ (mem_childrenByZ.mp ha)) (h _ (mem_childrenByZ.mp hb)) hle

/-- A node of the places given, with ids that count up. -/
def atPlaces (places : List Float) : Node :=
  { empty ⟨places.length⟩ with
    children := places.zipIdx.map fun (z, serial) => { empty ⟨serial⟩ with z } }

theorem childrenByZ_of_finite_zeros :
    (∀ child ∈ (atPlaces [2.0, 0.0, 1.0, -0.0, 2.0, 0.0]).children, child.z.isFinite = true) ∧
      ((atPlaces [2.0, 0.0, 1.0, -0.0, 2.0, 0.0]).childrenByZ.filter (·.z == 2.0)).map (·.id.serial) = [0, 4] ∧
      ((atPlaces [2.0, 0.0, 1.0, -0.0, 2.0, 0.0]).childrenByZ.filter (·.z == 0.0)).map (·.id.serial) = [3, 1, 5] := by
  have hfinite : ∀ child ∈ (atPlaces [2.0, 0.0, 1.0, -0.0, 2.0, 0.0]).children, child.z.isFinite = true := by
    decide
  obtain ⟨-, -, hplace, hzero⟩ := childrenByZ_of_finite (atPlaces [2.0, 0.0, 1.0, -0.0, 2.0, 0.0]) hfinite
  refine ⟨hfinite, ?_, ?_⟩
  · rw [hplace 2.0 (by decide)]
    decide
  · rw [hzero]
    decide

/-- The sort is not stable for children of equal places: `-0` is put in front of a `0` that was
    added before it. -/
theorem negative_zero_drawn_first :
    ¬ ∀ node : Node, (∀ child ∈ node.children, child.z.isFinite = true) →
      node.childrenByZ.Perm node.children ∧
        node.childrenByZ.Pairwise (·.z ≤ ·.z) ∧
        ∀ place : Float, node.childrenByZ.filter (·.z == place) = node.children.filter (·.z == place) := by
  intro h
  have hfinite : ∀ child ∈ (atPlaces [0.0, -0.0]).children, child.z.isFinite = true := by decide
  have hstable := (h (atPlaces [0.0, -0.0]) hfinite).2.2 0.0
  rw [filter_childrenByZ_zero hfinite] at hstable
  have hserials := congrArg (List.map (·.id.serial)) hstable
  revert hserials
  decide

end Node

end Sketchwork
