/-
  Sketchwork.Evaluation.Expr — the values of expressions and arguments in a scope.
-/
import Sketchwork.Document.Basic
import Sketchwork.Evaluation.Functions
import Sketchwork.Evaluation.Members
import Sketchwork.Evaluation.Operators
import Sketchwork.Evaluation.Scope

namespace Sketchwork

/-! ## Expressions -/

namespace Expr

mutual

def eval (scope : Scope) : Expr → Except Error Value
  | .null _ => .ok .null
  | .bool b _ => .ok (.bool b)
  | .number x _ => .ok (.number x)
  | .text s _ => .ok (.text s)
  | .variable name _ => scope.lookup name
  | .list items _ => do return .list (← evalAll scope items)
  | .unary op operand _ => do Value.unary op (← eval scope operand)
  | .binary op left right _ => do
    let a ← eval scope left
    match op with
    | .and => if a.truthy then return .bool (← eval scope right).truthy else return .bool false
    | .or => if a.truthy then return .bool true else return .bool (← eval scope right).truthy
    | op => Value.binary op a (← eval scope right)
  | .conditional condition yes no _ => do
    if (← eval scope condition).truthy then eval scope yes else eval scope no
  | .call function args _ => do
    let args ← evalNumbers scope function.value args
    match Functions.call function.value args with
    | .ok x => return .number x
    | .error fault => throw (.expression fault)
  | .index target place _ => do
    let target ← eval scope target
    Value.index target (← eval scope place)
  | .member target name _ => do Value.member (← eval scope target) name.value

def evalAll (scope : Scope) : List Expr → Except Error (List Value)
  | [] => .ok []
  | item :: items => do
    let value ← eval scope item
    return value :: (← evalAll scope items)

/-- The arguments of a function, each of which has to be a number. -/
def evalNumbers (scope : Scope) (function : String) : List Expr → Except Error (List Float)
  | [] => .ok []
  | item :: items => do
    let x ← (← eval scope item).asNumber function
    return x :: (← evalNumbers scope function items)

end

end Expr

/-! ## Literals and arguments -/

namespace Literal

mutual

def value : Literal → Value
  | .null => .null
  | .bool b => .bool b
  | .number x => .number x
  | .text s => .text s
  | .list items => .list (values items)
  | .map entries => .map (entryValues entries)

def values : List Literal → List Value
  | [] => []
  | item :: items => value item :: values items

def entryValues : List (String × Literal) → List (String × Value)
  | [] => []
  | (key, item) :: entries => (key, value item) :: entryValues entries

end

end Literal

namespace Arg

mutual

def eval (scope : Scope) : Arg → Except Error Value
  | .literal l => .ok l.value
  | .expr e => e.eval scope
  | .list items => do return .list (← evalAll scope items)
  | .map entries => do return .map (← evalEntries scope entries)

def evalAll (scope : Scope) : List Arg → Except Error (List Value)
  | [] => .ok []
  | item :: items => do
    let value ← eval scope item
    return value :: (← evalAll scope items)

def evalEntries (scope : Scope) : List (String × Arg) → Except Error (List (String × Value))
  | [] => .ok []
  | (key, item) :: entries => do
    let value ← eval scope item
    return (key, value) :: (← evalEntries scope entries)

end

end Arg

end Sketchwork
