/-
  Sketchwork.Proofs.Export.Hidden — hidden nodes leave no trace in what is rendered.

  Three walks pass over hidden nodes, each in its own way: the box around the drawing takes an
  empty box for them, the groups are made for all children and sorted before the missing ones
  are dropped, and the JSON value is made of a copy. Boxes are compared up to
  `Bounds.Alike`: which empty box the walk ends with depends on the hidden nodes, but the
  part of the plane that is shown does not.

  Proved: SVG and JSON texts are those of the tree without its hidden nodes, trees that agree
  have the same texts, and of a hidden root there is nothing to see (`hidden_leaves_no_trace`).
-/
import Sketchwork.Export.Structured
import Sketchwork.Proofs.Export.Groups
import Sketchwork.Proofs.Scene.Pruning

namespace Sketchwork

/-! ## Boxes -/

namespace Bounds

/-- The same box, or two that no point is in. -/
def Alike (a b : Bounds) : Prop :=
  a = b ∨ (a.isEmpty = true ∧ b.isEmpty = true)

variable {a a' b b' : Bounds}

theorem isEmpty_empty : empty.isEmpty = true := by
  decide

theorem Alike.refl (a : Bounds) : Alike a a :=
  .inl rfl

theorem alike_merge_empty (a : Bounds) (hb : b.isEmpty = true) : Alike (a.merge b) a := by
  by_cases ha : a.isEmpty = true
  · exact .inr ⟨by rw [merge_empty_left ha, hb], ha⟩
  · exact .inl (by simp [merge, ha, hb])

theorem Alike.merge (ha : Alike a a') (hb : Alike b b') : Alike (a.merge b) (a'.merge b') := by
  rcases ha with rfl | ⟨ha, ha'⟩
  · rcases hb with rfl | ⟨hb, hb'⟩
    · exact .refl _
    · by_cases ha : a.isEmpty = true
      · exact .inr ⟨by rw [merge_empty_left ha, hb], by rw [merge_empty_left ha, hb']⟩
      · exact .inl (by simp [Bounds.merge, ha, hb, hb'])
  · rw [merge_empty_left ha, merge_empty_left ha']
    exact hb

end Bounds

namespace Export

/-! ## Drawings -/

namespace Svg

variable (settings : Settings)

theorem extent_of_hidden {node : Node} (h : node.hidden = true) : extent node = .empty := by
  cases node
  rw [extent]
  exact if_pos h

theorem extent_of_visible {node : Node} (h : node.hidden = false) :
    extent node = extents (Bounds.mergeAll (node.entities.map Entity.bounds)) node.children := by
  cases node
  rw [extent]
  exact if_neg (by simpa using h)

theorem extents_pruned {nodes : List Node} (ih : ∀ node ∈ nodes, (extent node.pruned).Alike (extent node))
    {box box' : Bounds} (h : box.Alike box') : (extents box (Node.prunedAll nodes)).Alike (extents box' nodes) := by
  induction nodes generalizing box box' with
  | nil => exact h
  | cons node nodes ih' =>
    obtain ⟨first, others⟩ := List.forall_mem_cons.mp ih
    rw [Node.prunedAll, extents]
    by_cases hn : node.hidden = true
    · -- Only the tree with the node merges a box for it, and an empty one at that.
      rw [if_pos hn, extent_of_hidden hn]
      refine ih' others ?_
      rcases h with rfl | ⟨hb, hb'⟩
      · rcases Bounds.alike_merge_empty box Bounds.isEmpty_empty with h | h
        · exact .inl h.symm
        · exact .inr h.symm
      · exact .inr ⟨hb, by rw [Bounds.merge_empty_left hb', Bounds.isEmpty_empty]⟩
    · rw [if_neg hn, extents]
      exact ih' others (h.merge first)

theorem extent_pruned (node : Node) : (extent node.pruned).Alike (extent node) := by
  induction node using Node.ofChildren with
  | step node ih =>
    by_cases h : node.hidden = true
    · rw [extent_of_hidden h, extent_of_hidden (by rw [Node.hidden_pruned, h])]
      exact .refl _
    · have h : node.hidden = false := by simpa using h
      rw [extent_of_visible h, extent_of_visible (by rw [Node.hidden_pruned, h]), Node.entities_pruned]
      rw [Node.children_pruned, ← Node.prunedAll_eq]
      exact extents_pruned ih (.refl _)

theorem view_of_alike {a b : Node} (h : (extent a).Alike (extent b)) : view settings a = view settings b := by
  unfold view
  rcases h with h | ⟨ha, hb⟩
  · rw [h]
  · simp only [ha, hb, if_true]

theorem groupAttributes_pruned (node : Node) : groupAttributes node.pruned = groupAttributes node := by
  cases node
  rfl

theorem group_pruned (node : Node) (parent : Style) : group settings node.pruned parent = group settings node parent := by
  induction node using Node.ofChildren generalizing parent with
  | step node ih =>
    have same (style : Style) : contents settings style node.pruned = contents settings style node := by
      unfold contents
      rw [Node.entities_pruned, Node.childrenByZ_pruned, List.filterMap_map, List.filterMap_filter]
      congr 1
      refine List.filterMap_congr fun child hc => ?_
      by_cases h : child.hidden = true
      · rw [group_eq, if_pos h, h]
        rfl
      · rw [Function.comp, ih child (Node.mem_childrenByZ.mp hc)]
        simp [h]
    rw [group_eq, group_eq settings node, Node.hidden_pruned, Node.style_pruned, groupAttributes_pruned, same]

theorem document_congr {a b : Node} (hv : view settings a = view settings b)
    (hg : group settings a .empty = group settings b .empty) : document settings a = document settings b := by
  unfold document
  rw [hv, hg]

theorem document_pruned (root : Node) : document settings root.pruned = document settings root :=
  document_congr settings (view_of_alike settings (extent_pruned root)) (group_pruned settings root .empty)

theorem document_of_hidden {root : Node} (h : root.hidden = true) (id : NodeId) :
    document settings root = document settings (.empty id) := by
  refine document_congr settings (view_of_alike settings ?_) ?_
  · rw [extent_of_hidden h]
    exact .refl _
  · have nothing (style : Style) : contents settings style (.empty id) = [] := by
      simp [contents, Node.childrenByZ, Node.empty]
    rw [group_eq, if_pos h, group_eq, nothing]
    rfl

end Svg

/-! ## JSON values -/

namespace Structured

theorem visibleAll_eq {nodes : List Node}
    (ih : ∀ node ∈ nodes, visible node = if node.hidden then none else some node.pruned) :
    visibleAll nodes = Node.prunedAll nodes := by
  induction nodes with
  | nil => rfl
  | cons node nodes ih' =>
    obtain ⟨first, others⟩ := List.forall_mem_cons.mp ih
    rw [visibleAll, Node.prunedAll, first, ih' others]
    split <;> rfl

theorem visible_eq (node : Node) : visible node = if node.hidden then none else some node.pruned := by
  induction node using Node.ofChildren with
  | step node ih =>
    cases node
    rw [visible, visibleAll_eq ih]
    rfl

theorem render_pruned (pretty : Bool) (root : Node) : render pretty root.pruned = render pretty root := by
  unfold render
  rw [visible_eq, visible_eq, Node.hidden_pruned, Node.pruned_pruned]

theorem render_of_hidden (pretty : Bool) {root : Node} (h : root.hidden = true) : render pretty root = "null" := by
  unfold render
  rw [visible_eq, if_pos h]
  cases pretty <;> rfl

end Structured

/-! ## The law -/

theorem hidden_leaves_no_trace (settings : Settings) (pretty : Bool) :
    (∀ root : Node, root.hidden = false →
      Svg.render settings root = Svg.render settings root.pruned ∧
        Structured.render pretty root = Structured.render pretty root.pruned) ∧
      (∀ a b : Node, a.Agrees b →
        Svg.render settings a = Svg.render settings b ∧ Structured.render pretty a = Structured.render pretty b) ∧
      ∀ root : Node, root.hidden = true →
        (∀ id, Svg.render settings root = Svg.render settings (.empty id)) ∧ Structured.render pretty root = "null" := by
  have svg (root : Node) : Svg.render settings root = Svg.render settings root.pruned :=
    congrArg Markup.render (Svg.document_pruned settings root).symm
  have structured (root : Node) : Structured.render pretty root = Structured.render pretty root.pruned :=
    (Structured.render_pruned pretty root).symm
  have nothing {root : Node} (h : root.hidden = true) (id : NodeId) :
      Svg.render settings root = Svg.render settings (.empty id) :=
    congrArg Markup.render (Svg.document_of_hidden settings h id)
  refine ⟨fun root _ => ⟨svg root, structured root⟩, fun a b h => ?_, fun root h =>
    ⟨nothing h, Structured.render_of_hidden pretty h⟩⟩
  rcases Node.hidden_or_pruned_eq_of_agrees h with ⟨ha, hb⟩ | ⟨-, -, h⟩
  · rw [nothing ha ⟨0⟩, nothing hb ⟨0⟩, Structured.render_of_hidden pretty ha, Structured.render_of_hidden pretty hb]
    exact ⟨rfl, rfl⟩
  · rw [svg a, svg b, structured a, structured b, h]
    exact ⟨rfl, rfl⟩

/-- A large hidden circle in front of a point, and the same scene without it. -/
theorem hidden_circle_leaves_no_trace :
    let black : Color := ⟨.srgb, some 0.0, some 0.0, some 0.0, some 1.0, .name "black"⟩
    let settings : Settings := ⟨10.0, none, 3, black, 1.5, black, true⟩
    let circle : Node := { Node.holding ⟨1⟩ [.circle .origin 50.0] with hidden := true }
    let dot : Node := .holding ⟨2⟩ [.point .origin]
    let scene : Node := (Node.empty ⟨0⟩).add [circle, dot]
    let bare : Node := (Node.empty ⟨0⟩).add [dot]
    scene.hidden = false ∧ scene.pruned = bare ∧ Svg.render settings scene = Svg.render settings bare ∧
      scene.Agrees bare ∧ Structured.render true scene = Structured.render true bare ∧
      circle.hidden = true ∧ Structured.render true circle = "null" := by
  intro black settings circle dot scene bare
  obtain ⟨pruned, agrees, hidden⟩ := hidden_leaves_no_trace settings true
  have h : scene.Agrees bare := .shown (.left rfl (.shown .nil .nil)) .nil
  exact ⟨rfl, rfl, (pruned scene rfl).1, h, (agrees scene bare h).2, rfl, (hidden circle rfl).2⟩

end Export

end Sketchwork
