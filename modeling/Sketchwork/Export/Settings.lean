/-
  Sketchwork.Export.Settings — formats, options and what they come to with a configuration.

  Options take precedence over the configuration. They are settled in order, after the
  colors of the configuration.
-/
import Sketchwork.Assoc
import Sketchwork.Config.Basic
import Sketchwork.Decimal.Natural
import Sketchwork.Decimal.Reading

namespace Sketchwork.Export

inductive Format where
  | svg | json | debug
  deriving DecidableEq, Repr

/-! ## Errors -/

inductive OptionFault where
  | padding
  | background (text : String) (fault : ColorFault)
  | precision (fault : Decimal.NaturalFault)
  | pretty
  | unknown
  deriving Repr

def OptionFault.message : OptionFault → String
  | padding => "expected a non-negative number"
  | background text fault => Color.rejection text fault
  | precision fault => fault.message
  | pretty => "provided string was not `true` or `false`"
  | unknown => "unknown option"

inductive Error where
  | unknownFormat (name : String)
  | option (name value : String) (fault : OptionFault)
  | configured (color : Config.Miscolored)
  deriving Repr

def Error.message : Error → String
  | unknownFormat name => "unknown format `" ++ name ++ "`, expected svg, json or debug"
  | option name value fault =>
    "invalid value `" ++ value ++ "` for option `" ++ name ++ "`: " ++ fault.message
  | configured color => "render error: " ++ color.message

def Format.read (name : String) : Except Error Format :=
  match name with
  | "svg" => .ok .svg
  | "json" => .ok .json
  | "debug" => .ok .debug
  | _ => .error (.unknownFormat name)

/-! ## Settings -/

/-- Options by name. -/
abbrev Options := Assoc String

structure Settings where
  padding : Float
  background : Option Color
  precision : Nat
  stroke : Color
  strokeWidth : Float
  fill : Color
  pretty : Bool
  deriving Repr

namespace Settings

def paddingOf (text : String) : Except OptionFault Float :=
  match Decimal.read? text.toList with
  | some x => if x.isFinite && 0.0 ≤ x then .ok x else .error .padding
  | none => .error .padding

def backgroundOf (text : String) : Except OptionFault Color :=
  match Color.read text with
  | .ok color => .ok color
  | .error fault => .error (.background text fault)

def precisionOf (text : String) : Except OptionFault Nat :=
  match Decimal.readNatural text.toList with
  | .ok n => .ok n
  | .error fault => .error (.precision fault)

def prettyOf (text : String) : Except OptionFault Bool :=
  match text with
  | "true" => .ok true
  | "false" => .ok false
  | _ => .error .pretty

/-- The settings with one more option. -/
def override (settings : Settings) (name value : String) : Except OptionFault Settings := do
  match name with
  | "padding" => return { settings with padding := ← paddingOf value }
  | "background" => return { settings with background := some (← backgroundOf value) }
  | "precision" => return { settings with precision := ← precisionOf value }
  | "pretty" => return { settings with pretty := ← prettyOf value }
  | _ => throw .unknown

def overrideAll (settings : Settings) : Options → Except Error Settings
  | [] => .ok settings
  | (name, value) :: options =>
    match settings.override name value with
    | .ok settings => settings.overrideAll options
    | .error fault => .error (.option name value fault)

/-- The settings of a configuration alone. -/
def ofConfig (config : Config) : Except Config.Miscolored Settings := do
  let background ← config.backgroundColor
  let stroke ← config.strokeColor
  let fill ← config.fillColor
  return {
    padding := config.padding
    background
    precision := config.precision
    stroke
    strokeWidth := config.strokeWidth
    fill
    pretty := config.pretty }

def resolve (options : Options) (config : Config) : Except Error Settings :=
  match ofConfig config with
  | .ok settings => settings.overrideAll options
  | .error color => .error (.configured color)

end Settings

end Sketchwork.Export
