/-
  Sketchwork.Proofs.Export.Drawing — what the document of a scene shows, and where.

  A document is walked from its beginning to its end. Its pieces are the groups and the shapes
  it comes upon, each with the attributes of the groups around it; since a group comes before
  what is in it, the pieces tell how the groups nest. On the side of the scene
  stand the shown nodes in drawing order (`Node.shown`).

  Proved: the pieces are those of the shown nodes that have something to draw, a group for the
  node and its entities in it (`pieces_document`); so shapes correspond to the entities of the
  shown nodes one by one, groups to the nodes that draw, and no group is empty
  (`document_draws_shown`).
-/
import Sketchwork.Proofs.Export.Groups
import Sketchwork.Proofs.Scene.Branches

namespace Sketchwork

/-! ## Pieces of a document -/

namespace Markup

/-- What a walk comes upon, with the attributes of the groups around it, the innermost first. -/
inductive Piece where
  | group (attributes : List Attribute) (around : List (List Attribute))
  | shape (drawn : Markup) (around : List (List Attribute))

/-- The attributes of a group and of those around it. -/
def Piece.group? : Piece → Option (List (List Attribute))
  | group attributes around => some (attributes :: around)
  | shape _ _ => none

/-- A shape and the attributes of the groups around it. -/
def Piece.shape? : Piece → Option (Markup × List (List Attribute))
  | group _ _ => none
  | shape drawn around => some (drawn, around)

/-- The elements that stand for entities. -/
def isShape (name : String) : Bool :=
  name == "path" || name == "circle" || name == "text"

mutual

/-- The groups and shapes in the order of the document. -/
def pieces (around : List (List Attribute)) : Markup → List Piece
  | .text _ => []
  | .element name attributes children =>
    if name = "g" then .group attributes around :: piecesAll (attributes :: around) children
    else
      (if isShape name then [.shape (.element name attributes children) around] else []) ++ piecesAll around children

def piecesAll (around : List (List Attribute)) : List Markup → List Piece
  | [] => []
  | m :: ms => pieces around m ++ piecesAll around ms

end

def shapes (m : Markup) : List (Markup × List (List Attribute)) :=
  (m.pieces []).filterMap Piece.shape?

def groups (m : Markup) : List (List (List Attribute)) :=
  (m.pieces []).filterMap Piece.group?

mutual

/-- The element itself and all in it. -/
def elements : Markup → List Markup
  | .text _ => []
  | .element name attributes children => .element name attributes children :: elementsAll children

def elementsAll : List Markup → List Markup
  | [] => []
  | m :: ms => elements m ++ elementsAll ms

end

theorem piecesAll_eq (around : List (List Attribute)) (ms : List Markup) :
    piecesAll around ms = ms.flatMap (pieces around) := by
  induction ms with
  | nil => rfl
  | cons m ms ih => rw [piecesAll, ih, List.flatMap_cons]

theorem pieces_group (around : List (List Attribute)) (attributes : List Attribute) (children : List Markup) :
    (element "g" attributes children).pieces around =
      .group attributes around :: children.flatMap (pieces (attributes :: around)) := by
  rw [pieces, if_pos rfl, piecesAll_eq]

theorem elementsAll_eq (ms : List Markup) : elementsAll ms = ms.flatMap elements := by
  induction ms with
  | nil => rfl
  | cons m ms ih => rw [elementsAll, ih, List.flatMap_cons]

end Markup

/-! ## Styles of nodes -/

/-- The style at the end of a path: what a node leaves unset comes from the nodes above it. -/
def Style.along (path : List Node) : Style :=
  path.foldr (fun node under => node.style.withDefaults under) .empty

def Branch.style (b : Branch) : Style :=
  .along b.nodes

namespace Export.Svg

variable (settings : Settings)

/-- What a node that draws contributes: its group and its entities in it. -/
def Branch.pieces (b : Branch) : List Markup.Piece :=
  .group (groupAttributes b.node) (b.above.map groupAttributes) ::
    b.node.entities.map fun e => .shape (shape settings b.style e) (b.nodes.map groupAttributes)

/-! ## Shapes -/

theorem shape_eq_element (style : Style) (e : Entity) : ∃ name attributes children,
    shape settings style e = .element name attributes children ∧ Markup.isShape name = true ∧
      ∀ m ∈ children, ∃ content, m = .text content := by
  cases e with
  | text c => exact ⟨_, _, _, rfl, rfl, by simp⟩
  | _ => exact ⟨_, _, _, rfl, rfl, by simp⟩

theorem flatMap_of_texts {α : Type} {f : Markup → List α} (hf : ∀ content, f (.text content) = [])
    {ms : List Markup} (h : ∀ m ∈ ms, ∃ content, m = .text content) : ms.flatMap f = [] := by
  refine List.flatMap_eq_nil_iff.mpr fun m hm => ?_
  obtain ⟨content, rfl⟩ := h m hm
  exact hf content

theorem pieces_shape (around : List (List Attribute)) (style : Style) (e : Entity) :
    (shape settings style e).pieces around = [.shape (shape settings style e) around] := by
  obtain ⟨name, attributes, children, h, hn, hc⟩ := shape_eq_element settings style e
  have hg : name ≠ "g" := by rintro rfl; cases hn
  rw [h, Markup.pieces, if_neg hg, if_pos hn, Markup.piecesAll_eq,
    flatMap_of_texts (fun _ => by rw [Markup.pieces]) hc, List.append_nil]

theorem elements_shape (style : Style) (e : Entity) :
    (shape settings style e).elements = [shape settings style e] := by
  obtain ⟨name, attributes, children, h, -, hc⟩ := shape_eq_element settings style e
  rw [h, Markup.elements, Markup.elementsAll_eq, flatMap_of_texts (fun _ => by rw [Markup.elements]) hc]

/-! ## Groups -/

theorem isSome_group (node : Node) (parent : Style) : (group settings node parent).isSome = node.draws := by
  induction node using Node.ofChildren generalizing parent with
  | step node ih =>
    have empty (style : Style) : (contents settings style node).isEmpty =
        !(!node.entities.isEmpty || node.childrenByZ.any Node.draws) := by
      have none_iff : ∀ child ∈ node.childrenByZ, group settings child style = none ↔ child.draws = false := by
        intro child hc
        rw [← ih child (Node.mem_childrenByZ.mp hc) style, Option.isSome_eq_false_iff, Option.isNone_iff_eq_none]
      rw [Bool.eq_iff_iff]
      simp +contextual [contents, none_iff]
    rw [group_eq, node.draws_eq, empty]
    cases node.hidden <;> cases (!node.entities.isEmpty || node.childrenByZ.any Node.draws) <;> rfl

theorem group_of_not_draws {node : Node} (h : node.draws = false) (parent : Style) : group settings node parent = none := by
  have hg := isSome_group settings node parent
  rwa [h, Option.isSome_eq_false_iff, Option.isNone_iff_eq_none] at hg

theorem group_of_draws {node : Node} (h : node.draws = true) (parent : Style) : group settings node parent =
    some (.element "g" (groupAttributes node) (contents settings (node.style.withDefaults parent) node)) := by
  have hg := isSome_group settings node parent
  rw [h, group_eq] at hg
  rw [group_eq]
  split at hg
  · cases hg
  · split at hg
    · cases hg
    · rename_i visible drawn
      rw [if_neg visible, if_neg drawn]

/-- The pieces of what a node draws: its shapes and then the pieces of its children. -/
theorem flatMap_contents (around : List (List Attribute)) (style : Style) (node : Node) :
    (contents settings style node).flatMap (Markup.pieces around) =
      node.entities.map (fun e => .shape (shape settings style e) around) ++
        node.childrenByZ.flatMap fun child => (group settings child style).toList.flatMap (Markup.pieces around) := by
  rw [contents, List.flatMap_append, List.filterMap_eq_flatMap_toList, List.flatMap_assoc, List.flatMap_map]
  simp only [pieces_shape, ← List.map_eq_flatMap]

theorem pieces_of_group (node : Node) (above : List Node) :
    (group settings node (.along above)).toList.flatMap (Markup.pieces (above.map groupAttributes)) =
      ((node.shown above).filter (·.node.draws)).flatMap (Branch.pieces settings) := by
  induction node using Node.ofChildren generalizing above with
  | step node ih =>
    cases hd : node.draws with
    | false =>
      rw [group_of_not_draws settings hd, List.filter_eq_nil_iff.mpr fun b hb h => ?_]
      · rfl
      · rw [Node.draws_of_mem_shown hb h] at hd
        cases hd
    | true =>
      -- A child is drawn in the settled style of this node, one group further in.
      have below : node.childrenByZ.flatMap (fun child => (group settings child (.along (node :: above))).toList.flatMap
            (Markup.pieces ((node :: above).map groupAttributes))) =
          node.childrenByZ.flatMap fun child =>
            ((child.shown (node :: above)).filter (·.node.draws)).flatMap (Branch.pieces settings) :=
        List.flatMap_congr fun child hc => ih child (Node.mem_childrenByZ.mp hc) (node :: above)
      rw [group_of_draws settings hd, Option.toList_some, List.flatMap_singleton, Markup.pieces_group,
        Node.shown_of_visible above (Node.visible_of_draws hd), List.filter_cons, if_pos hd, List.flatMap_cons,
        List.filter_flatMap, List.flatMap_assoc, ← below, Branch.pieces, List.cons_append]
      exact congrArg _ (flatMap_contents settings _ (.along (node :: above)) node)

/-- Behind every element of a group is a node or an entity. -/
theorem mem_elements_group {node : Node} {parent : Style} {g m : Markup} (hg : group settings node parent = some g)
    (hm : m ∈ g.elements) :
    (∃ node parent, group settings node parent = some m) ∨ ∃ style e, m = shape settings style e := by
  induction node using Node.ofChildren generalizing parent g with
  | step node ih =>
    cases hd : node.draws with
    | false => rw [group_of_not_draws settings hd] at hg; cases hg
    | true =>
      have hg' := hg
      rw [group_of_draws settings hd] at hg'
      cases hg'
      rw [Markup.elements, Markup.elementsAll_eq] at hm
      rcases List.mem_cons.mp hm with rfl | hm
      · exact .inl ⟨node, parent, hg⟩
      obtain ⟨part, hp, hm⟩ := List.mem_flatMap.mp hm
      rcases List.mem_append.mp hp with hp | hp
      · obtain ⟨e, -, rfl⟩ := List.mem_map.mp hp
        rw [elements_shape, List.mem_singleton] at hm
        exact .inr ⟨_, e, hm⟩
      · obtain ⟨child, hc, hp⟩ := List.mem_filterMap.mp hp
        exact ih child (Node.mem_childrenByZ.mp hc) hp hm

/-! ## Documents -/

/-- The names of the attributes of a document and of its background. -/
def documentNames : List String :=
  ["xmlns", "viewBox", "width", "height"]

def backgroundNames : List String :=
  ["x", "y", "fill", "width", "height"]

/-- What a document holds: the background, when there is one, and the group of the root. -/
theorem exists_document (root : Node) : ∃ attributes background,
    document settings root = .element "svg" attributes (background ++ (group settings root (.along [])).toList) ∧
      attributes.map Prod.fst = documentNames ∧
      ∀ m ∈ background, ∃ attributes, m = .element "rect" attributes [] ∧ attributes.map Prod.fst = backgroundNames := by
  refine ⟨_, _, rfl, rfl, fun m hm => ?_⟩
  obtain ⟨color, -, rfl⟩ := List.mem_map.mp hm
  exact ⟨_, rfl, rfl⟩

theorem pieces_document (root : Node) : (document settings root).pieces [] =
    ((root.shown []).filter (·.node.draws)).flatMap (Branch.pieces settings) := by
  obtain ⟨attributes, background, h, -, hb⟩ := exists_document settings root
  have nothing : background.flatMap (Markup.pieces []) = [] := by
    refine List.flatMap_eq_nil_iff.mpr fun m hm => ?_
    obtain ⟨attributes, rfl, -⟩ := hb m hm
    rfl
  rw [h, Markup.pieces, if_neg (by decide), if_neg (by decide), Markup.piecesAll_eq, List.flatMap_append, nothing]
  exact pieces_of_group settings root []

/-- Shapes correspond to the entities of shown nodes, one by one and in order. -/
theorem shapes_document (root : Node) : (document settings root).shapes = (root.shown []).flatMap fun b =>
    b.node.entities.map fun e => (shape settings b.style e, b.nodes.map groupAttributes) := by
  have one (b : Branch) : (Branch.pieces settings b).filterMap Markup.Piece.shape? =
      b.node.entities.map fun e => (shape settings b.style e, b.nodes.map groupAttributes) := by
    rw [Branch.pieces, List.filterMap_cons, List.filterMap_map]
    exact congrFun List.filterMap_eq_map' _
  have all (bs : List Branch) (hv : ∀ b ∈ bs, b.node.hidden = false) :
      (bs.filter (·.node.draws)).flatMap (fun b => (Branch.pieces settings b).filterMap Markup.Piece.shape?) =
        bs.flatMap fun b => (Branch.pieces settings b).filterMap Markup.Piece.shape? := by
    induction bs with
    | nil => rfl
    | cons b bs ih =>
      obtain ⟨first, others⟩ := List.forall_mem_cons.mp hv
      cases hd : b.node.draws with
      | true => simp only [List.filter_cons, hd, if_true, List.flatMap_cons, ih others]
      | false => simp [hd, ih others, one b, Node.entities_of_not_draws first hd]
  rw [Markup.shapes, pieces_document, List.filterMap_flatMap, all]
  · simp only [one]
  · intro b hb
    have := List.all_eq_true.mp (Node.mem_shown.mp hb).2 b.node List.mem_cons_self
    simpa using this

/-- Groups correspond to the shown nodes that draw, and nest as these do. -/
theorem groups_document (root : Node) : (document settings root).groups =
    ((root.shown []).filter (·.node.draws)).map fun b => b.nodes.map groupAttributes := by
  have one (b : Branch) : (Branch.pieces settings b).filterMap Markup.Piece.group? = [b.nodes.map groupAttributes] := by
    rw [Branch.pieces, List.filterMap_cons, List.filterMap_map]
    exact congrArg _ (List.filterMap_eq_nil_iff.mpr fun e _ => rfl)
  rw [Markup.groups, pieces_document, List.filterMap_flatMap, List.map_eq_flatMap]
  simp only [one]

theorem mem_elements_document {root : Node} {m : Markup} (hm : m ∈ (document settings root).elements) :
    (∃ attributes children, m = .element "svg" attributes children ∧ attributes.map Prod.fst = documentNames) ∨
      (∃ attributes, m = .element "rect" attributes [] ∧ attributes.map Prod.fst = backgroundNames) ∨
      (∃ node parent, group settings node parent = some m) ∨ ∃ style e, m = shape settings style e := by
  obtain ⟨attributes, background, h, hn, hb⟩ := exists_document settings root
  rw [h, Markup.elements, Markup.elementsAll_eq] at hm
  rcases List.mem_cons.mp hm with rfl | hm
  · exact .inl ⟨_, _, rfl, hn⟩
  obtain ⟨part, hp, hm⟩ := List.mem_flatMap.mp hm
  rcases List.mem_append.mp hp with hp | hp
  · obtain ⟨attributes, rfl, hn⟩ := hb part hp
    exact .inr (.inl ⟨attributes, List.mem_singleton.mp hm, hn⟩)
  · exact .inr (.inr (mem_elements_group settings (Option.mem_toList.mp hp) hm))

theorem children_ne_nil_of_mem_elements {root : Node} {attributes : List Attribute} {children : List Markup}
    (h : .element "g" attributes children ∈ (document settings root).elements) : children ≠ [] := by
  rcases mem_elements_document settings h with ⟨_, _, h, -⟩ | ⟨_, h, -⟩ | ⟨node, parent, h⟩ | ⟨style, e, h⟩
  · exact absurd (Markup.element.inj h).1 (by decide)
  · exact absurd (Markup.element.inj h).1 (by decide)
  · rw [group_eq] at h
    split at h
    · cases h
    · split at h
      · cases h
      · rename_i drawn
        cases h
        simpa using drawn
  · obtain ⟨name, _, _, hs, hn, -⟩ := shape_eq_element settings style e
    rw [hs] at h
    cases h
    cases hn

/-! ## The law -/

theorem document_draws_shown (root : Node) :
    (document settings root).shapes = ((root.shown []).flatMap fun b =>
        b.node.entities.map fun e => (shape settings b.style e, b.nodes.map groupAttributes)) ∧
      (document settings root).groups =
        (((root.shown []).filter (·.node.draws)).map fun b => b.nodes.map groupAttributes) ∧
      (document settings root).pieces [] =
        ((root.shown []).filter (·.node.draws)).flatMap (Branch.pieces settings) ∧
      (∀ attributes children, .element "g" attributes children ∈ (document settings root).elements → children ≠ []) ∧
      (root.shown []).Perm ((root.branches []).filter Branch.visible) ∧
      ∀ node : Node, node.draws = true ↔ ∃ b ∈ node.branches [], b.visible = true ∧ b.node.entities ≠ [] := by
  refine ⟨shapes_document settings root, groups_document settings root, pieces_document settings root, ?_,
    Node.shown_perm (by simp) root, fun node => Node.draws_iff⟩
  intro attributes children h
  exact children_ne_nil_of_mem_elements settings h

/-- A point in a group in a group; the hidden circle below it makes neither. -/
theorem point_drawn_in_two_groups :
    let black : Color := ⟨.srgb, some 0.0, some 0.0, some 0.0, some 1.0, .name "black"⟩
    let settings : Settings := ⟨10.0, none, 3, black, 1.5, black, true⟩
    let circle : Node := { Node.holding ⟨2⟩ [.circle .origin 50.0] with hidden := true }
    let dot : Node := (Node.holding ⟨1⟩ [.point .origin]).add [circle]
    let scene : Node := (Node.empty ⟨0⟩).add [dot]
    (document settings scene).shapes =
        [(shape settings .empty (.point .origin), [groupAttributes dot, groupAttributes scene])] ∧
      (document settings scene).groups = [[groupAttributes scene], [groupAttributes dot, groupAttributes scene]] := by
  intro black settings circle dot scene
  have beside : scene.childrenByZ = [dot] := List.mergeSort_singleton _
  have below : dot.childrenByZ = [circle] := List.mergeSort_singleton _
  have shown : scene.shown [] = [⟨scene, []⟩, ⟨dot, [scene]⟩] := by
    rw [Node.shown_of_visible _ rfl, beside, List.flatMap_singleton, Node.shown_of_visible _ rfl, below,
      List.flatMap_singleton, Node.shown_of_hidden _ rfl]
  have inner : dot.draws = true := by
    rw [Node.draws_eq]
    rfl
  have outer : scene.draws = true := by
    rw [Node.draws_eq, beside, List.any_cons, inner]
    rfl
  obtain ⟨shapes, groups, -⟩ := document_draws_shown settings scene
  rw [shown] at shapes groups
  refine ⟨shapes, groups.trans ?_⟩
  rw [List.filter_cons, if_pos outer, List.filter_cons, if_pos inner]
  rfl

end Export.Svg

end Sketchwork
