/-
  Sketchwork.Scene.Style — how shapes are drawn.

  Every property may be left unset. `Style.withDefaults` fills what is unset from the style of the
  enclosing node, property by property.
-/
import Sketchwork.Color.Basic
import Sketchwork.Decimal.Reading
import Sketchwork.Text.Blank
import Sketchwork.Text.Fields

namespace Sketchwork

/-! ## Patterns of dashes -/

inductive StrokePattern where
  | solid
  | dashed
  | dotted
  | dashDot
  | dashDotDot
  /-- Lengths of dashes and gaps, as written. -/
  | custom (lengths : String)
  deriving DecidableEq, Repr

namespace StrokePattern

/-- Numbers that are not negative, with commas or blanks between them. -/
def isLengths (text : String) : Bool :=
  let parts := Text.fields (fun c => c == ',' || Text.isBlank c) text.toList
  !parts.isEmpty && parts.all fun part =>
    match Decimal.read? part with
    | some x => 0.0 ≤ x
    | none => false

def read? (text : String) : Option StrokePattern :=
  match text with
  | "solid" => some .solid
  | "dashed" => some .dashed
  | "dotted" => some .dotted
  | "dash-dot" | "dashdot" => some .dashDot
  | "dash-dot-dot" | "dashdotdot" => some .dashDotDot
  | _ => if isLengths text then some (.custom text) else none

/-- Why a text is no pattern. -/
def rejection (text : String) : String :=
  "invalid line pattern `" ++ text ++ "`, expected solid, dashed, dotted, dash-dot, " ++
    "dash-dot-dot or a list of dash lengths"

def name : StrokePattern → String
  | solid => "solid"
  | dashed => "dashed"
  | dotted => "dotted"
  | dashDot => "dash-dot"
  | dashDotDot => "dash-dot-dot"
  | custom lengths => lengths

/-- The lengths of dashes and gaps; none for a solid line. -/
def dashes? : StrokePattern → Option String
  | solid => none
  | dashed => some "5,5"
  | dotted => some "2,3"
  | dashDot => some "10,5,2,5"
  | dashDotDot => some "10,5,2,5,2,5"
  | custom lengths => some lengths

end StrokePattern

/-! ## Strokes and fills -/

structure Stroke where
  color : Option Color
  width : Option Float
  pattern : Option StrokePattern
  opacity : Option Float
  /-- Whether the width grows with the drawing. -/
  scaled : Option Bool
  deriving Repr, BEq

def Stroke.empty : Stroke :=
  ⟨none, none, none, none, none⟩

def Stroke.withDefaults (s under : Stroke) : Stroke where
  color := s.color <|> under.color
  width := s.width <|> under.width
  pattern := s.pattern <|> under.pattern
  opacity := s.opacity <|> under.opacity
  scaled := s.scaled <|> under.scaled

def Stroke.isEmpty (s : Stroke) : Bool :=
  s.color.isNone && s.width.isNone && s.pattern.isNone && s.opacity.isNone && s.scaled.isNone

structure Fill where
  color : Option Color
  opacity : Option Float
  deriving Repr, BEq

def Fill.empty : Fill :=
  ⟨none, none⟩

def Fill.withDefaults (f under : Fill) : Fill where
  color := f.color <|> under.color
  opacity := f.opacity <|> under.opacity

def Fill.isEmpty (f : Fill) : Bool :=
  f.color.isNone && f.opacity.isNone

/-! ## Styles -/

structure Style where
  stroke : Stroke
  fill : Fill
  /-- Of the whole group, strokes and fills together. -/
  opacity : Option Float
  deriving Repr, BEq

namespace Style

/-- The style that sets nothing. -/
def empty : Style :=
  ⟨.empty, .empty, none⟩

def isEmpty (s : Style) : Bool :=
  s.stroke.isEmpty && s.fill.isEmpty && s.opacity.isNone

/-- The style with its unset properties taken from `under`. -/
def withDefaults (s under : Style) : Style where
  stroke := s.stroke.withDefaults under.stroke
  fill := s.fill.withDefaults under.fill
  opacity := s.opacity <|> under.opacity

end Style

end Sketchwork
