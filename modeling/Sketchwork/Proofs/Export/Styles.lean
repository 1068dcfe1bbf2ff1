/-
  Sketchwork.Proofs.Export.Styles — which style an entity is drawn in.

  On its way down a drawing settles styles by filling what a node leaves unset from the node
  above it. Looked at from below, every property of an entity has a value of its own: that
  of the nearest node on the path to the root that sets it (`Style.nearest`), whatever is said
  of the other properties. Opacity is no such property: it holds for a group as a whole.

  Proved: the settled style has the nearest values (`property_along`), settling is associative
  (`withDefaults_assoc`), and the attributes that are written show these values and the
  configured ones where no node sets any (`shapes_show_nearest`).
-/
import Sketchwork.Proofs.Export.Drawing

namespace Sketchwork

/-! ## Settled styles -/

namespace Style

variable {α : Type}

/-- The value of a property at the first node of a path that sets it. -/
def nearest (property : Style → Option α) (path : List Node) : Option α :=
  path.findSome? fun node => property node.style

/-- A property that is taken over where it is unset, apart from all others. -/
structure Inherits (property : Style → Option α) : Prop where
  empty : property .empty = none
  withDefaults (s under : Style) : property (s.withDefaults under) = (property s).or (property under)

theorem inherits_strokeColor : Inherits (·.stroke.color) := ⟨rfl, fun _ _ => Option.orElse_eq_or⟩
theorem inherits_strokeWidth : Inherits (·.stroke.width) := ⟨rfl, fun _ _ => Option.orElse_eq_or⟩
theorem inherits_strokePattern : Inherits (·.stroke.pattern) := ⟨rfl, fun _ _ => Option.orElse_eq_or⟩
theorem inherits_strokeOpacity : Inherits (·.stroke.opacity) := ⟨rfl, fun _ _ => Option.orElse_eq_or⟩
theorem inherits_strokeScaled : Inherits (·.stroke.scaled) := ⟨rfl, fun _ _ => Option.orElse_eq_or⟩
theorem inherits_fillColor : Inherits (·.fill.color) := ⟨rfl, fun _ _ => Option.orElse_eq_or⟩
theorem inherits_fillOpacity : Inherits (·.fill.opacity) := ⟨rfl, fun _ _ => Option.orElse_eq_or⟩

theorem along_cons (node : Node) (path : List Node) : along (node :: path) = node.style.withDefaults (along path) := rfl

theorem property_along {property : Style → Option α} (h : Inherits property) (path : List Node) :
    property (along path) = nearest property path := by
  induction path with
  | nil => exact h.empty
  | cons node path ih =>
    rw [along_cons, h.withDefaults, ih, nearest, nearest, List.findSome?_cons]
    cases property node.style <;> rfl

theorem withDefaults_assoc (a b c : Style) : (a.withDefaults b).withDefaults c = a.withDefaults (b.withDefaults c) := by
  simp only [withDefaults, Stroke.withDefaults, Fill.withDefaults, Option.orElse_eq_orElse, Option.orElse_eq_or,
    Option.or_assoc]

/-- A path may be settled in parts. -/
theorem along_append (path path' : List Node) : along (path ++ path') = (along path).withDefaults (along path') := by
  induction path with
  | nil => rfl
  | cons node path ih =>
    rw [List.cons_append, along_cons, along_cons, ih, withDefaults_assoc]

end Style

/-! ## Attributes -/

def Markup.attribute? (name : String) : Markup → Option String
  | .element _ attributes _ => attributes.lookup name
  | .text _ => none

/-- A shape with an inside. -/
def Entity.encloses : Entity → Bool
  | circle _ _ | polyface _ => true
  | polycurve curve => curve.closed
  | point _ | segment _ _ | arc _ | text _ => false

namespace Export.Svg

variable (settings : Settings)

/-- The names of the attributes that a style is written to. -/
def styleNames : List String :=
  ["stroke", "stroke-width", "stroke-dasharray", "stroke-opacity", "vector-effect", "fill", "fill-opacity"]

/-- The line of an element shows the nearest values on a path. -/
structure Stroked (path : List Node) (m : Markup) : Prop where
  color : m.attribute? "stroke" = some ((Style.nearest (·.stroke.color) path).getD settings.stroke).text
  width : m.attribute? "stroke-width" =
    some (number settings ((Style.nearest (·.stroke.width) path).getD settings.strokeWidth))
  pattern : m.attribute? "stroke-dasharray" = (Style.nearest (·.stroke.pattern) path).bind StrokePattern.dashes?
  opacity : m.attribute? "stroke-opacity" = (Style.nearest (·.stroke.opacity) path).map Decimal.plain
  scaled : m.attribute? "vector-effect" =
    if Style.nearest (·.stroke.scaled) path = some true then none else some "non-scaling-stroke"

/-- The inside of an element shows the nearest values on a path. -/
structure Filled (path : List Node) (m : Markup) : Prop where
  color : m.attribute? "fill" = some ((Style.nearest (·.fill.color) path).getD settings.fill).text
  opacity : m.attribute? "fill-opacity" = (Style.nearest (·.fill.opacity) path).map Decimal.plain

structure Unfilled (m : Markup) : Prop where
  color : m.attribute? "fill" = some "none"
  opacity : m.attribute? "fill-opacity" = none

/-- Text has no line and is filled with the color of strokes. -/
structure Lettered (path : List Node) (m : Markup) : Prop where
  color : m.attribute? "fill" = some ((Style.nearest (·.stroke.color) path).getD settings.stroke).text
  others : ∀ name ∈ styleNames, name ≠ "fill" → m.attribute? name = none

/-- An element shows an entity that stands at the beginning of a path. -/
def Shows (path : List Node) : Entity → Markup → Prop
  | .text _, m => Lettered settings path m
  | e, m => Stroked settings path m ∧ if e.encloses then Filled settings path m else Unfilled m

theorem lookup_cons (name value key : String) (attributes : List Attribute) :
    ((name, value) :: attributes).lookup key = if key = name then some value else attributes.lookup key := by
  by_cases h : key = name
  · simp [h]
  · simp [List.lookup_cons, beq_eq_false_iff_ne.mpr h, h]

theorem lookup_set {α : Type} (name key : String) (f : α → String) (value : Option α) :
    (set name f value).lookup key = if key = name then value.map f else none := by
  by_cases h : key = name <;> cases value <;> simp [set, h]

theorem lookup_strokeAttributes (stroke : Stroke) (key : String) : (strokeAttributes settings stroke).lookup key =
    if key = "stroke" then some (stroke.color.getD settings.stroke).text
    else if key = "stroke-width" then some (number settings (stroke.width.getD settings.strokeWidth))
    else if key = "stroke-dasharray" then stroke.pattern.bind StrokePattern.dashes?
    else if key = "stroke-opacity" then stroke.opacity.map Decimal.plain
    else if key = "vector-effect" then if stroke.scaled = some true then none else some "non-scaling-stroke"
    else none := by
  simp only [strokeAttributes, List.lookup_append, lookup_set, lookup_cons, List.lookup_nil, beq_iff_eq]
  grind

theorem lookup_fillAttributes (fill : Fill) (closed : Bool) (key : String) :
    (fillAttributes settings fill closed).lookup key =
      if key = "fill" then some (if closed then (fill.color.getD settings.fill).text else "none")
      else if key = "fill-opacity" then if closed then fill.opacity.map Decimal.plain else none
      else none := by
  cases closed <;> simp [fillAttributes, lookup_cons, lookup_set]

variable {own : List Attribute} (path : List Node) (closed : Bool) (name : String)

theorem attribute?_outline (style : Style) {key : String} (h : own.lookup key = none) :
    (outline settings style closed name own).attribute? key =
      ((strokeAttributes settings style.stroke).lookup key).or ((fillAttributes settings style.fill closed).lookup key) := by
  simp only [outline, Markup.attribute?, List.lookup_append, h, Option.none_or]

theorem stroked_outline (hown : ∀ key ∈ styleNames, own.lookup key = none) :
    Stroked settings path (outline settings (.along path) closed name own) := by
  have lookup {key : String} (hk : key ∈ styleNames) (hf : key ≠ "fill") (ho : key ≠ "fill-opacity") :
      (outline settings (.along path) closed name own).attribute? key =
        (strokeAttributes settings (Style.along path).stroke).lookup key := by
    rw [attribute?_outline settings closed name _ (hown key hk), lookup_fillAttributes, if_neg hf, if_neg ho, Option.or_none]
  constructor
  all_goals rw [lookup (by decide) (by decide) (by decide), lookup_strokeAttributes]
  case color => rw [← Style.property_along Style.inherits_strokeColor]; rfl
  case width => rw [← Style.property_along Style.inherits_strokeWidth]; rfl
  case pattern => rw [← Style.property_along Style.inherits_strokePattern]; rfl
  case opacity => rw [← Style.property_along Style.inherits_strokeOpacity]; rfl
  case scaled => rw [← Style.property_along Style.inherits_strokeScaled]; rfl

theorem fill_outline (hown : ∀ key ∈ styleNames, own.lookup key = none) :
    if closed then Filled settings path (outline settings (.along path) closed name own)
    else Unfilled (outline settings (.along path) closed name own) := by
  have lookup {key : String} (hk : key ∈ styleNames)
      (hs : (strokeAttributes settings (Style.along path).stroke).lookup key = none) :
      (outline settings (.along path) closed name own).attribute? key =
        (fillAttributes settings (Style.along path).fill closed).lookup key := by
    rw [attribute?_outline settings closed name _ (hown key hk), hs, Option.none_or]
  have color := lookup (by decide) (lookup_strokeAttributes settings _ "fill")
  have opacity := lookup (by decide) (lookup_strokeAttributes settings _ "fill-opacity")
  rw [lookup_fillAttributes] at color opacity
  cases closed with
  | true =>
    refine ⟨color.trans ?_, opacity.trans ?_⟩
    · rw [← Style.property_along Style.inherits_fillColor]; rfl
    · rw [← Style.property_along Style.inherits_fillOpacity]; rfl
  | false => exact ⟨color, opacity⟩

theorem lettered_caption (c : Caption) : Lettered settings path (caption settings (.along path) c) := by
  refine ⟨?color, ?others⟩
  case color =>
    rw [← Style.property_along Style.inherits_strokeColor]
    rfl
  case others =>
    cases h : c.rotation != 0.0 <;> simp [caption, Markup.attribute?, lookup_cons, styleNames, h]

/-- The element of an entity shows it in the style at the end of its path. -/
theorem shows_shape (e : Entity) : Shows settings path e (shape settings (.along path) e) := by
  have outlined {own : List Attribute} (closed : Bool) (name : String) (hown : ∀ key ∈ styleNames, own.lookup key = none) :
      Stroked settings path (outline settings (.along path) closed name own) ∧
        if closed then Filled settings path (outline settings (.along path) closed name own)
        else Unfilled (outline settings (.along path) closed name own) :=
    ⟨stroked_outline settings path closed name hown, fill_outline settings path closed name hown⟩
  cases e with
  | text c => exact lettered_caption settings path c
  | point p => exact outlined false "path" (by simp [styleNames, lookup_cons])
  | segment p q => exact outlined false "path" (by simp [styleNames])
  | circle c r => exact outlined true "circle" (by simp [styleNames, lookup_cons])
  | arc a => exact outlined false "path" (by simp [styleNames])
  | polycurve curve => exact outlined curve.closed "path" (by simp [styleNames])
  | polyface loops => exact outlined true "path" (by simp [styleNames, lookup_cons])

/-! ## Opacity -/

theorem lookup_opacity_groupAttributes (node : Node) :
    (groupAttributes node).lookup "opacity" = node.style.opacity.map Decimal.plain := by
  cases h : node.name.isEmpty <;> simp [groupAttributes, List.lookup_append, lookup_set, lookup_cons, h]

theorem attribute?_opacity_shape (style : Style) (e : Entity) : (shape settings style e).attribute? "opacity" = none := by
  cases e with
  | text c =>
    cases h : c.rotation != 0.0 <;> simp [shape, caption, Markup.attribute?, lookup_cons, h]
  | _ =>
    simp only [shape]
    rw [attribute?_outline settings _ _ _ (by simp [lookup_cons]), lookup_strokeAttributes, lookup_fillAttributes]
    rfl

/-- Only groups have an opacity of their own. -/
theorem isGroup_of_opacity {root : Node} {m : Markup} (hm : m ∈ (document settings root).elements)
    (h : m.attribute? "opacity" ≠ none) : ∃ attributes children, m = .element "g" attributes children := by
  have absent {attributes : List Attribute} (ha : "opacity" ∉ attributes.map Prod.fst) :
      attributes.lookup "opacity" = none :=
    List.lookup_eq_none_iff.mpr fun a hm => by
      simpa using fun he => ha (List.mem_map.mpr ⟨a, hm, he.symm⟩)
  rcases mem_elements_document settings hm with ⟨_, _, rfl, hn⟩ | ⟨_, rfl, hn⟩ | ⟨node, parent, hm⟩ | ⟨style, e, rfl⟩
  · exact absurd (absent (by rw [hn]; decide)) h
  · exact absurd (absent (by rw [hn]; decide)) h
  · cases hd : node.draws with
    | false => rw [group_of_not_draws settings hd] at hm; cases hm
    | true =>
      rw [group_of_draws settings hd] at hm
      exact ⟨_, _, (Option.some.inj hm).symm⟩
  · exact absurd (attribute?_opacity_shape settings style e) h

/-! ## The law -/

theorem shapes_show_nearest (root : Node) :
    List.Forall₂ (fun p s => Shows settings p.1.nodes p.2 s.1)
        ((root.shown []).flatMap fun b => b.node.entities.map fun e => (b, e)) (document settings root).shapes ∧
      (document settings root).groups.map (fun path => (path.headD []).lookup "opacity") =
        (((root.shown []).filter (·.node.draws)).map fun b => b.node.style.opacity.map Decimal.plain) ∧
      (∀ m ∈ (document settings root).elements, m.attribute? "opacity" ≠ none →
        ∃ attributes children, m = .element "g" attributes children) ∧
      (∀ a b c : Style, (a.withDefaults b).withDefaults c = a.withDefaults (b.withDefaults c)) ∧
      ∀ path path' : List Node, Style.along (path ++ path') = (Style.along path).withDefaults (.along path') := by
  refine ⟨?shapes, ?groups, fun m hm h => isGroup_of_opacity settings hm h, Style.withDefaults_assoc, Style.along_append⟩
  case shapes =>
    have drawn : (document settings root).shapes =
        ((root.shown []).flatMap fun b => b.node.entities.map fun e => (b, e)).map fun p =>
          (shape settings p.1.style p.2, p.1.nodes.map groupAttributes) := by
      rw [shapes_document, List.map_flatMap]
      simp only [List.map_map, Function.comp_def]
    rw [drawn, List.forall₂_map_right_iff, List.forall₂_same]
    exact fun p _ => shows_shape settings p.1.nodes p.2
  case groups =>
    rw [groups_document, List.map_map]
    refine List.map_congr_left fun b _ => ?_
    exact lookup_opacity_groupAttributes b.node

/-- A point has the color that it sets and the width of the scene; the opacity is the scene's alone. -/
theorem point_shows_width_of_scene :
    let black : Color := ⟨.srgb, some 0.0, some 0.0, some 0.0, some 1.0, .name "black"⟩
    let red : Color := ⟨.srgb, some 1.0, some 0.0, some 0.0, some 1.0, .name "red"⟩
    let settings : Settings := ⟨10.0, none, 3, black, 1.5, black, true⟩
    let dot : Node :=
      { Node.holding ⟨1⟩ [.point .origin] with style := ⟨{ Stroke.empty with color := some red }, .empty, none⟩ }
    let scene : Node :=
      { (Node.empty ⟨0⟩).add [dot] with
        style := ⟨{ Stroke.empty with color := some black, width := some 2.0 }, .empty, some 0.5⟩ }
    ∃ m around, (document settings scene).shapes = [(m, around)] ∧ m.attribute? "stroke" = some red.text ∧
      m.attribute? "stroke-width" = some (number settings 2.0) ∧
      (document settings scene).groups.map (fun path => (path.headD []).lookup "opacity") =
        [some (Decimal.plain 0.5), none] := by
  intro black red settings dot scene
  have beside : scene.childrenByZ = [dot] := List.mergeSort_singleton _
  have below : dot.childrenByZ = [] := List.mergeSort_nil
  have shown : scene.shown [] = [⟨scene, []⟩, ⟨dot, [scene]⟩] := by
    rw [Node.shown_of_visible _ rfl, beside, List.flatMap_singleton, Node.shown_of_visible _ rfl, below, List.flatMap_nil]
  have inner : dot.draws = true := by
    rw [Node.draws_eq]
    rfl
  have outer : scene.draws = true := by
    rw [Node.draws_eq, beside, List.any_cons, inner]
    rfl
  obtain ⟨shapes, groups, -⟩ := shapes_show_nearest settings scene
  rw [shown] at shapes groups
  obtain ⟨⟨m, around⟩, _, ⟨stroked, -⟩, others, h⟩ := List.forall₂_cons_left_iff.mp shapes
  obtain rfl := List.forall₂_nil_left_iff.mp others
  refine ⟨m, around, h, stroked.color, stroked.width, groups.trans ?_⟩
  rw [List.filter_cons, if_pos outer, List.filter_cons, if_pos inner]
  rfl

end Export.Svg

end Sketchwork
