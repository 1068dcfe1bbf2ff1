/-
  Sketchwork.Evaluation.Scope — the names that expressions see.
-/
import Sketchwork.Error

namespace Sketchwork

/-- Parameters and references with their values. -/
structure Scope where
  bindings : Assoc Value
  deriving Repr

namespace Scope

def empty : Scope :=
  ⟨[]⟩

/-- Binds a name, in the place of an earlier binding of it. -/
def bind (name : String) (value : Value) (scope : Scope) : Scope :=
  ⟨scope.bindings.insert name value⟩

/-- The constants, which bindings may hide. -/
def constant? (name : String) : Option Float :=
  match name with
  | "PI" => some Real64.pi
  | "E" => some 2.718281828459045
  | _ => none

def lookup? (scope : Scope) (name : String) : Option Value :=
  scope.bindings.get? name <|> (constant? name).map .number

def lookup (scope : Scope) (name : String) : Except Error Value :=
  match scope.lookup? name with
  | some value => .ok value
  | none => .error (.unbound name)

end Scope

end Sketchwork
