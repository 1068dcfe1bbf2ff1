/-
  Sketchwork.Config.Basic — what a configuration settles about rendered output.

  Colors are kept as texts; whether they are colors is found out when something is rendered.
-/
import Sketchwork.Color.Reader

namespace Sketchwork

structure Config where
  /-- The space around a drawing. -/
  padding : Float
  background : Option String
  /-- Decimal places of coordinates. -/
  precision : Nat
  /-- The color of strokes that no style colors. -/
  stroke : String
  strokeWidth : Float
  /-- The color of closed shapes that no style fills. -/
  fill : String
  /-- Whether structured output is indented. -/
  pretty : Bool
  deriving Repr

namespace Config

def default : Config where
  padding := 10.0
  background := none
  precision := 3
  stroke := "black"
  strokeWidth := 1.5
  fill := "white"
  pretty := true

/-- What a configured color is for. -/
inductive Role where
  | background | stroke | fill
  deriving DecidableEq, Repr

def Role.text : Role → String
  | background => "background"
  | stroke => "stroke"
  | fill => "fill"

/-- A configured color that is none. -/
structure Miscolored where
  role : Role
  text : String
  fault : ColorFault
  deriving Repr

def Miscolored.message (m : Miscolored) : String :=
  "Invalid " ++ m.role.text ++ " color in config: " ++ Color.rejection m.text m.fault

def color (role : Role) (text : String) : Except Miscolored Color :=
  match Color.read text with
  | .ok color => .ok color
  | .error fault => .error ⟨role, text, fault⟩

def backgroundColor (config : Config) : Except Miscolored (Option Color) :=
  match config.background with
  | none => .ok none
  | some text => (color .background text).map some

def strokeColor (config : Config) : Except Miscolored Color :=
  color .stroke config.stroke

def fillColor (config : Config) : Except Miscolored Color :=
  color .fill config.fill

end Config

end Sketchwork
