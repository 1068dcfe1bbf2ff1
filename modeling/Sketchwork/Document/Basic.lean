/-
  Sketchwork.Document.Basic — documents: parameters, references and a chain of steps.

  Defaults of parameters are taken as written. In references and step arguments every
  text that is not blank is an expression.
-/
import Sketchwork.Assoc
import Sketchwork.Expr.Basic

namespace Sketchwork

/-- A value taken as written. -/
inductive Literal where
  | null
  | bool (value : Bool)
  | number (value : Float)
  | text (value : String)
  | list (items : List Literal)
  | map (entries : List (String × Literal))
  deriving Repr, Inhabited

/-- An argument: a tree whose texts are expressions. -/
inductive Arg where
  | literal (value : Literal)
  | expr (value : Expr)
  | list (items : List Arg)
  | map (entries : List (String × Arg))
  deriving Repr, Inhabited

/-- One step of a chain. -/
inductive Step where
  /-- Call a feature on the sketch built so far. -/
  | call (name : Spanned String) (args : List Arg)
  /-- Build a sketch with a chain of its own and add it as a child. -/
  | nested (steps : List Step) (span : Span)
  deriving Repr, Inhabited

structure Chain where
  steps : List Step
  span : Span
  deriving Repr, Inhabited

structure Parameter where
  /-- Without its sigil. -/
  name : Spanned String
  default : Literal
  deriving Repr

inductive Binding where
  /-- The value of an argument. -/
  | plain (arg : Arg)
  /-- The sketch that a chain builds. -/
  | sketch (chain : Chain)
  deriving Repr

structure Reference where
  /-- Without its sigil and its `:sketch`. -/
  name : Spanned String
  binding : Binding
  deriving Repr

structure Document where
  parameters : List Parameter
  references : List Reference
  sketch : Chain
  deriving Repr

end Sketchwork
