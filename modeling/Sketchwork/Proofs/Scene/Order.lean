/-
  Sketchwork.Proofs.Scene.Order — nodes in the order they are drawn in.

  Children are drawn by their places, and the sort that puts them in order is stable. So it
  makes no difference whether nodes are left out before the sort or after it.

  Proved: sorting commutes with leaving out (`filter_mergeSort`); trees of nodes are
  taken apart from the leaves up (`Node.ofChildren`).
-/
import Mathlib.Data.List.Basic
import Sketchwork.Scene.Node

namespace Sketchwork

/-! ## Stable sorting -/

section Sorting

variable {α : Type} {le : α → α → Bool}

/-- A list in two parts, told apart by a test, has no other such parts. -/
theorem append_inj_of_test {test : α → Bool} {xs xs' ys ys' : List α} (h : xs ++ ys = xs' ++ ys')
    (hx : ∀ x ∈ xs, test x = true) (hx' : ∀ x ∈ xs', test x = true) (hy : ∀ y ∈ ys, test y = false)
    (hy' : ∀ y ∈ ys', test y = false) : xs = xs' ∧ ys = ys' := by
  have first {xs ys : List α} (hx : ∀ x ∈ xs, test x = true) (hy : ∀ y ∈ ys, test y = false) :
      (xs ++ ys).filter test = xs := by
    rw [List.filter_append, List.filter_eq_self.mpr hx, List.filter_eq_nil_iff.mpr (by simpa using hy),
      List.append_nil]
  have hxs : xs = xs' := by rw [← first hx hy, h, first hx' hy']
  exact ⟨hxs, List.append_cancel_left (hxs ▸ h)⟩

/-- Leaving items out before a sort or after it comes to the same. -/
theorem filter_mergeSort (trans : ∀ a b c, le a b → le b c → le a c) (total : ∀ a b, le a b || le b a)
    (p : α → Bool) (l : List α) : (l.mergeSort le).filter p = (l.filter p).mergeSort le := by
  induction l with
  | nil => simp
  | cons a l ih =>
    obtain ⟨before, after, hs, hl, hbefore⟩ := List.mergeSort_cons trans total a l
    rw [hl, List.filter_append] at ih
    rw [hs, List.filter_append]
    by_cases hp : p a = true
    · -- both sorts put `a` behind what is strictly below it
      obtain ⟨before', after', hs', hl', hbefore'⟩ := List.mergeSort_cons trans total a (l.filter p)
      have behind {xs before after : List α} (h : (a :: xs).mergeSort le = before ++ a :: after) :
          ∀ b ∈ after, (!le a b) = false := by
        have sorted := List.pairwise_mergeSort trans total (a :: xs)
        rw [h] at sorted
        intro b hb
        rw [(List.pairwise_cons.mp (List.pairwise_append.mp sorted).2.1).1 b hb, Bool.not_true]
      obtain ⟨hb, ha⟩ := append_inj_of_test (ih.trans hl') (fun b hb => hbefore b (List.mem_filter.mp hb).1) hbefore'
        (fun b hb => behind hs b (List.mem_filter.mp hb).1) (behind hs')
      rw [List.filter_cons_of_pos hp, List.filter_cons_of_pos hp, hs', hb, ha]
    · rw [List.filter_cons_of_neg hp, List.filter_cons_of_neg hp, ih]

end Sorting

theorem Real64.totalLe_trans (a b c : Float) (hab : totalLe a b = true) (hbc : totalLe b c = true) :
    totalLe a c = true := by
  simp only [totalLe, decide_eq_true_eq] at *
  exact Int.le_trans hab hbc

theorem Real64.totalLe_total (a b : Float) : (totalLe a b || totalLe b a) = true := by
  simp only [totalLe, Bool.or_eq_true, decide_eq_true_eq]
  exact Int.le_total _ _

/-! ## Nodes and their children -/

namespace Node

theorem size_le_sizes {node : Node} {nodes : List Node} (h : node ∈ nodes) : node.size ≤ sizes nodes := by
  induction nodes with
  | nil => cases h
  | cons first nodes ih =>
    rw [sizes]
    rcases List.mem_cons.mp h with rfl | h
    · omega
    · have := ih h
      omega

theorem size_lt_of_mem {node child : Node} (h : child ∈ node.children) : child.size < node.size := by
  have := size_le_sizes h
  rw [node.size_eq]
  omega

/-- What holds of a node when it holds of its children holds of every node. -/
theorem ofChildren {motive : Node → Prop}
    (step : ∀ node, (∀ child ∈ node.children, motive child) → motive node) (node : Node) : motive node :=
  step node fun child _ => ofChildren step child
termination_by node.size
decreasing_by exact size_lt_of_mem ‹_›

theorem mapNodes_eq (f : List Entity → List Entity) (nodes : List Node) :
    mapNodes f nodes = nodes.map (mapEntities f) := by
  induction nodes with
  | nil => rfl
  | cons node nodes ih => rw [mapNodes, ih, List.map_cons]

theorem mapEntities_eq (f : List Entity → List Entity) (node : Node) :
    node.mapEntities f =
      { node with entities := f node.entities, children := node.children.map (mapEntities f) } := by
  cases node
  rw [mapEntities, mapNodes_eq]

theorem childrenByZ_perm (node : Node) : node.childrenByZ.Perm node.children :=
  List.mergeSort_perm _ _

@[simp] theorem mem_childrenByZ {node child : Node} : child ∈ node.childrenByZ ↔ child ∈ node.children :=
  node.childrenByZ_perm.mem_iff

theorem filter_childrenByZ (p : Node → Bool) (node : Node) :
    node.childrenByZ.filter p = (node.children.filter p).mergeSort fun a b => Real64.totalLe a.z b.z := by
  unfold childrenByZ
  apply filter_mergeSort
  · intro a b c
    exact Real64.totalLe_trans a.z b.z c.z
  · intro a b
    exact Real64.totalLe_total a.z b.z

end Node

end Sketchwork
