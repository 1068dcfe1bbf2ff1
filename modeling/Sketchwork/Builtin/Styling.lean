/-
  Sketchwork.Builtin.Styling — the style of a node.
-/
import Sketchwork.Builtin.Args

namespace Sketchwork.Styling

def color (args : Args) (i : Nat) : Except Error Color := do
  let text ← args.text i
  match Color.read text with
  | .ok color => return color
  | .error fault => throw (args.fault i (.color text fault))

def pattern (args : Args) (i : Nat) : Except Error StrokePattern := do
  let text ← args.text i
  match StrokePattern.read? text with
  | some pattern => return pattern
  | none => throw (args.fault i (.pattern text))

/-- The argument if it is there. -/
def optional {α : Type} (args : Args) (i : Nat) (read : Args → Nat → Except Error α) :
    Except Error (Option α) :=
  args.orElse i none fun args i => some <$> read args i

/-! ## Single properties -/

/-- `stroke(color, width)`; without a width the old one stays -/
def stroke (style : Style) (args : Args) : Except Error Style := do
  let color ← color args 0
  let width ← optional args 1 Args.nonNegative
  return { style with stroke := { style.stroke with color := some color, width := width <|> style.stroke.width } }

/-- `fill(color, opacity)`; without an opacity the old one stays -/
def fill (style : Style) (args : Args) : Except Error Style := do
  let color ← color args 0
  let opacity ← optional args 1 Args.unitInterval
  return { style with fill := ⟨some color, opacity <|> style.fill.opacity⟩ }

/-- `linestyle(pattern)` -/
def linestyle (style : Style) (args : Args) : Except Error Style := do
  let pattern ← pattern args 0
  return { style with stroke := { style.stroke with pattern := some pattern } }

/-- `opacity(value)` -/
def opacity (style : Style) (args : Args) : Except Error Style := do
  return { style with opacity := some (← args.unitInterval 0) }

/-! ## Maps of properties -/

def strokeProperty (s : Stroke) (entry : String × Value) : Except Error Stroke := do
  let args : Args := ⟨"stroke", [entry.2]⟩
  match entry.1 with
  | "color" => return { s with color := some (← color args 0) }
  | "width" => return { s with width := some (← args.nonNegative 0) }
  | "pattern" => return { s with pattern := some (← pattern args 0) }
  | "opacity" => return { s with opacity := some (← args.unitInterval 0) }
  | "scaled" => return { s with scaled := some (← args.orElse 0 false Args.boolean) }
  | other => throw (.argument "style" 0 (.strokeProperty other))

/-- The stroke that a color or a map of properties describes. -/
def strokeOf : Value → Except Error Stroke
  | .text s => do return { Stroke.empty with color := some (← color ⟨"stroke", [.text s]⟩ 0) }
  | .map entries => entries.foldlM strokeProperty .empty
  | other => throw (.argument "style" 0 (.notStroke other.kind))

def fillProperty (f : Fill) (entry : String × Value) : Except Error Fill := do
  let args : Args := ⟨"fill", [entry.2]⟩
  match entry.1 with
  | "color" => return { f with color := some (← color args 0) }
  | "opacity" => return { f with opacity := some (← args.unitInterval 0) }
  | other => throw (.argument "style" 0 (.fillProperty other))

/-- The fill that a color or a map of properties describes. -/
def fillOf : Value → Except Error Fill
  | .text s => do return { Fill.empty with color := some (← color ⟨"fill", [.text s]⟩ 0) }
  | .map entries => entries.foldlM fillProperty .empty
  | other => throw (.argument "style" 0 (.notFill other.kind))

def styleProperty (args : Args) (s : Style) (entry : String × Value) : Except Error Style := do
  match entry.1 with
  | "stroke" => return { s with stroke := ← strokeOf entry.2 }
  | "fill" => return { s with fill := ← fillOf entry.2 }
  | "opacity" => return { s with opacity := some (← Args.unitInterval ⟨args.feature, [entry.2]⟩ 0) }
  | other => throw (args.fault 0 (.styleProperty other))

/-- `style({stroke: …, fill: …, opacity: …})`: what the map sets replaces what is set -/
def style (current : Style) (args : Args) : Except Error Style :=
  match args.get? 0 with
  | some (.map entries) => do
    let update ← entries.foldlM (styleProperty args) .empty
    return update.withDefaults current
  | _ => throw (args.fault 0 .notStyle)

end Sketchwork.Styling
