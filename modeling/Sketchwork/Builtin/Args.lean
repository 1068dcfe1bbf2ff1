/-
  Sketchwork.Builtin.Args — reading the positional arguments of a feature.

  An argument that is missing and one that is null are the same. Numbers have to be finite.
-/
import Sketchwork.Error

namespace Sketchwork

/-- The arguments of a call of a feature. -/
structure Args where
  feature : String
  values : List Value

namespace Args

def get? (args : Args) (i : Nat) : Option Value :=
  args.values[i]?.filter fun value => !value.isNull

def fault (args : Args) (i : Nat) (fault : ArgumentFault) : Error :=
  .argument args.feature i fault

/-- The error for an argument that is missing or of the wrong kind. -/
def wanted (args : Args) (i : Nat) (wanted : Wanted) : Error :=
  args.fault i (match args.get? i with
    | some value => .unexpected wanted value.kind
    | none => .missing wanted)

/-- The argument as `read?` reads it. -/
def read {α : Type} (args : Args) (i : Nat) (wanted : Wanted) (read? : Value → Option α) : Except Error α :=
  match (args.get? i).bind read? with
  | some x => .ok x
  | none => .error (args.wanted i wanted)

/-- The argument as `read` reads it, a default when it is missing. -/
def orElse {α : Type} (args : Args) (i : Nat) (default : α) (read : Args → Nat → Except Error α) :
    Except Error α :=
  match args.get? i with
  | some _ => read args i
  | none => .ok default

def number (args : Args) (i : Nat) : Except Error Float :=
  args.read i .number fun value => value.number?.filter Float.isFinite

/-- A number above 0. -/
def positive (args : Args) (i : Nat) : Except Error Float := do
  let x ← args.number i
  if 0.0 < x then return x else throw (args.fault i (.notPositive x))

def nonNegative (args : Args) (i : Nat) : Except Error Float := do
  let x ← args.number i
  if 0.0 ≤ x then return x else throw (args.fault i (.negative x))

/-- A number from 0 to 1. -/
def unitInterval (args : Args) (i : Nat) : Except Error Float := do
  let x ← args.number i
  if 0.0 ≤ x ∧ x ≤ 1.0 then return x else throw (args.fault i (.outsideUnit x))

def text (args : Args) (i : Nat) : Except Error String :=
  args.read i .text Value.text?

def boolean (args : Args) (i : Nat) : Except Error Bool :=
  args.read i .boolean Value.bool?

def point (args : Args) (i : Nat) : Except Error Position :=
  args.read i .point Value.point?

def segment (args : Args) (i : Nat) : Except Error (Position × Position) :=
  args.read i .segment Value.segment?

def sketch (args : Args) (i : Nat) : Except Error Node :=
  args.read i .sketch Value.sketch?

/-- A point, or two numbers in its place; and the index of the argument behind. -/
def place (args : Args) (i : Nat) : Except Error (Position × Nat) :=
  match args.get? i with
  | some (.number _) => do
    let x ← args.number i
    let y ← args.number (i + 1)
    return (⟨x, y⟩, i + 2)
  | _ => do
    let p ← args.point i
    return (p, i + 1)

end Args

end Sketchwork
