/-
  Sketchwork.Error — why a document cannot be evaluated or a feature not applied.
-/
import Sketchwork.Color.Reader
import Sketchwork.Expr.Basic
import Sketchwork.Geometry.Rounding
import Sketchwork.Value

namespace Sketchwork

/-! ## Arguments -/

/-- What an argument has to be. -/
inductive Wanted where
  | number | text | boolean | point | segment | sketch
  deriving DecidableEq, Repr

def Wanted.phrase : Wanted → String
  | number => "a number"
  | text => "a string"
  | boolean => "a boolean"
  | point => "a point"
  | segment => "a segment"
  | sketch => "a sketch"

/-- What is wrong with an argument. `found` is the kind of the value that is there. -/
inductive ArgumentFault where
  | missing (wanted : Wanted)
  | unexpected (wanted : Wanted) (found : String)
  | notPositive (value : Float)
  | negative (value : Float)
  | outsideUnit (value : Float)
  | color (text : String) (fault : ColorFault)
  | pattern (text : String)
  | fewVertices
  | noOutline
  | noLoops
  | notPoints
  | shortLoop
  | notLoop (found : String)
  | notStyle
  | styleProperty (name : String)
  | strokeProperty (name : String)
  | fillProperty (name : String)
  | notStroke (found : String)
  | notFill (found : String)
  deriving Repr

def ArgumentFault.message : ArgumentFault → String
  | missing wanted => "missing " ++ wanted.phrase
  | unexpected wanted found => "expected " ++ wanted.phrase ++ ", got " ++ found
  | notPositive x => "expected a positive number, got " ++ Decimal.plain x
  | negative x => "expected a non-negative number, got " ++ Decimal.plain x
  | outsideUnit x => "expected a value between 0 and 1, got " ++ Decimal.plain x
  | color text fault => Color.rejection text fault
  | pattern text => StrokePattern.rejection text
  | fewVertices => "a polycurve needs at least two vertices"
  | noOutline => "expected a closed outline, found no polycurve"
  | noLoops => "a polyface needs at least one loop"
  | notPoints => "expected a list of points"
  | shortLoop => "a loop needs at least three points"
  | notLoop found => "expected a loop, got " ++ found
  | notStyle => "expected a map of style properties"
  | styleProperty name => "unknown style property `" ++ name ++ "`"
  | strokeProperty name => "unknown stroke property `" ++ name ++ "`"
  | fillProperty name => "unknown fill property `" ++ name ++ "`"
  | notStroke found => "stroke must be a color or a map, got " ++ found
  | notFill found => "fill must be a color or a map, got " ++ found

/-! ## Expressions -/

/-- How many arguments a function takes. -/
inductive Arity where
  | exactly (n : Nat)
  | atLeastOne
  deriving DecidableEq, Repr

def Arity.phrase : Arity → String
  | exactly n => toString n
  | atLeastOne => "at least 1"

/-- Why an expression has no value. Kinds of values stand in for the values. -/
inductive ExprFault where
  | arity (function : String) (wanted : Arity) (found : Nat)
  | unknownFunction (name : String)
  /-- The argument of a function or a sign is no number. -/
  | notNumber (context found : String)
  | operands (op : BinaryOp) (left right : String)
  | divisionByZero
  | outOfRange (index : Float) (length : Nat)
  | noKey (key : String)
  | notIndexable (target index : String)
  | noMember (target name : String)
  deriving Repr

def ExprFault.message : ExprFault → String
  | arity function wanted found =>
    "`" ++ function ++ "` takes " ++ wanted.phrase ++ " argument(s), found " ++ toString found
  | unknownFunction name => "unknown function `" ++ name ++ "`"
  | notNumber context found => "`" ++ context ++ "` expects a number, found " ++ found
  | operands op left right => "cannot apply `" ++ op.text ++ "` to " ++ left ++ " and " ++ right
  | divisionByZero => "division by zero"
  | outOfRange index length =>
    "index " ++ Decimal.plain index ++ " out of range for a list of " ++ toString length
  | noKey key => "map has no key `" ++ key ++ "`"
  | notIndexable target index => "cannot index " ++ target ++ " with " ++ index
  | noMember target name => target ++ " has no member `" ++ name ++ "`"

/-! ## Geometry -/

def Degenerate.message : Degenerate → String
  | source => "source segment has zero length"
  | destination => "destination segment has zero length"

def CornerFault.message : CornerFault Float → String
  | radius r => "radius must be positive, got " ++ Decimal.plain r
  | emptySide => "corner has a zero-length segment"
  | collinear => "corner points are collinear"
  | shallow r angle =>
    "radius " ++ Decimal.plain r ++ " does not fit a " ++ Decimal.fixed 1 (Real64.degrees angle) ++ " degree turn"

def RoundingFault.message : RoundingFault → String
  | corner fault => fault.message
  | overlap radius edge =>
    "radius " ++ Decimal.plain radius ++ " is too large: neighbouring fillets overlap on edge " ++ toString edge

/-! ## Evaluation -/

/-- The deepest nesting of feature calls. -/
def maxDepth : Nat :=
  24

inductive Error where
  | unknownFeature (name : String)
  /-- A shape is needed and the sketch has none. -/
  | emptyShape
  | alignment (fault : Degenerate)
  | fillet (fault : RoundingFault)
  | unbound (name : String)
  | argument (feature : String) (index : Nat) (fault : ArgumentFault)
  | expression (fault : ExprFault)
  /-- A call at the deepest level. -/
  | recursionLimit (feature : String)
  deriving Repr

namespace Error

def message : Error → String
  | unknownFeature name => "unknown feature `" ++ name ++ "`"
  | emptyShape => "sketch does not contain any shape"
  | alignment fault => "degenerate alignment: " ++ fault.message
  | fillet fault => "invalid fillet: " ++ fault.message
  | unbound name => "unbound reference `" ++ name ++ "`"
  | argument feature index fault =>
    "invalid argument " ++ toString index ++ " for `" ++ feature ++ "`: " ++ fault.message
  | expression fault => "expression error: " ++ fault.message
  | recursionLimit feature =>
    "feature `" ++ feature ++ "` exceeded the maximum call depth of " ++ toString maxDepth

/-- The name of the kind of error. -/
def kind : Error → String
  | unknownFeature _ => "unknown_feature"
  | emptyShape => "empty_shape"
  | alignment _ => "degenerate_alignment"
  | fillet _ => "invalid_fillet"
  | unbound _ => "unbound_reference"
  | argument _ _ _ => "invalid_argument"
  | expression _ => "expression"
  | recursionLimit _ => "recursion_limit"

end Error

end Sketchwork
