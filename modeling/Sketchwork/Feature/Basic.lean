/-
  Sketchwork.Feature.Basic — features, registries and the state that calls run in.

  Calls draw fresh ids from a supply and may record observations; both stay when a call
  fails. A body that calls features is given the call to use, so that nothing here needs to
  know how deep it runs.
-/
import Sketchwork.Builtin.Table
import Sketchwork.Document.Basic

namespace Sketchwork

/-! ## State -/

/-- What a body saw when it was asked to report. -/
structure Observation where
  args : List Value
  depth : Nat
  feature : Option String
  deriving Repr

structure World where
  /-- The serial of the next fresh id. -/
  next : Nat
  /-- The latest first. -/
  observations : List Observation
  deriving Repr

abbrev Eval := ExceptT Error (StateM World)

namespace Eval

def fresh : Eval NodeId :=
  modifyGet fun w => (⟨w.next⟩, { w with next := w.next + 1 })

def observe (o : Observation) : Eval Unit :=
  modify fun w => { w with observations := o :: w.observations }

def ofExcept {α : Type} (x : Except Error α) : Eval α :=
  fun w => (x, w)

end Eval

/-- How a body calls the feature of a name: with arguments, on a node. -/
abbrev Dispatch := String → List Value → Node → Eval Node

/-! ## Lists of moves -/

/-- An argument of a call in a list of moves. -/
inductive Operand where
  | value (value : Value)
  /-- An argument of the feature itself, null when it is missing. -/
  | argument (i : Nat)
  /-- A copy of a scene with ids of its own. -/
  | copy (scene : Node)
  | list (items : List Operand)
  | map (entries : List (String × Operand))
  deriving Repr, Inhabited

/-- A move changes the node that a body works on. -/
inductive Move where
  | call (name : String) (args : List Operand)
  /-- Name the feature that made the node. -/
  | setFeature (name : String)
  /-- Go on with an empty node. -/
  | blank
  | fail
  /-- Record an observation. -/
  | probe
  deriving Repr

/-! ## Features -/

inductive Feature where
  | builtin (feature : Builtin)
  | document (document : Document)
  | moves (moves : List Move)
  deriving Repr

/-- Features by name, in the order they were registered. -/
abbrev Registry := Assoc Feature

namespace Registry

def builtins : Registry :=
  Builtin.all.map fun b => (b.label, .builtin b)

/-- Registers a feature, in the place of an earlier one of the name. -/
def register (name : String) (feature : Feature) (registry : Registry) : Registry :=
  Assoc.insert name feature registry

end Registry

end Sketchwork
