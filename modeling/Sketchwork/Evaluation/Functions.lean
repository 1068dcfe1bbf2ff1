/-
  Sketchwork.Evaluation.Functions — the functions of expressions. Angles are in radians.
-/
import Sketchwork.Error

namespace Sketchwork.Functions

def unary? (name : String) : Option (Float → Float) :=
  match name with
  | "abs" => some Float.abs
  | "sqrt" => some Float.sqrt
  | "sin" => some Float.sin
  | "cos" => some Float.cos
  | "tan" => some Float.tan
  | "asin" => some Float.asin
  | "acos" => some Float.acos
  | "atan" => some Float.atan
  | "floor" => some Float.floor
  | "ceil" => some Float.ceil
  | "round" => some Float.round
  | "rad" => some Real64.radians
  | "deg" => some Real64.degrees
  | _ => none

def binary? (name : String) : Option (Float → Float → Float) :=
  match name with
  | "atan2" => some Float.atan2
  | "hypot" => some Real64.hypot
  | _ => none

/-- The functions of one argument or more, with their value for none. -/
def variadic? (name : String) : Option (Float × (Float → Float → Float)) :=
  match name with
  | "min" => some (1.0 / 0.0, Real64.min)
  | "max" => some (-1.0 / 0.0, Real64.max)
  | _ => none

def call (name : String) (args : List Float) : Except ExprFault Float :=
  match unary? name, binary? name, variadic? name, args with
  | some f, _, _, [x] => .ok (f x)
  | some _, _, _, _ => .error (.arity name (.exactly 1) args.length)
  | _, some f, _, [x, y] => .ok (f x y)
  | _, some _, _, _ => .error (.arity name (.exactly 2) args.length)
  | _, _, some _, [] => .error (.arity name .atLeastOne 0)
  | _, _, some (start, f), _ => .ok (args.foldl f start)
  | none, none, none, _ => .error (.unknownFunction name)

end Sketchwork.Functions
