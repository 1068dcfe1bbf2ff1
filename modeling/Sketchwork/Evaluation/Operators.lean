/-
  Sketchwork.Evaluation.Operators — signs, arithmetic, comparison and the joining of texts.

  `and` and `or` look at their second operand only when the first leaves the answer open;
  the evaluation of expressions does that, not this module.
-/
import Sketchwork.Error

namespace Sketchwork.Value

/-- The value as a number, for a function or a sign. -/
def asNumber (context : String) (value : Value) : Except Error Float :=
  match value.number? with
  | some x => .ok x
  | none => .error (.expression (.notNumber context value.kind))

def unary (op : UnaryOp) (value : Value) : Except Error Value :=
  match op with
  | .negate => do return .number (-(← value.asNumber "-"))
  | .not => .ok (.bool !value.truthy)

/-- An order of texts by their code points. -/
def compareTexts? (op : BinaryOp) (a b : String) : Option Bool :=
  match op with
  | .less => some (decide (a < b))
  | .lessEqual => some (!decide (b < a))
  | .greater => some (decide (b < a))
  | .greaterEqual => some (!decide (a < b))
  | _ => none

/-- Arithmetic and comparison of numbers; both kinds of division refuse a zero divisor. -/
def arithmetic (op : BinaryOp) (a b : Float) : Except Error Value :=
  match op with
  | .add => .ok (.number (a + b))
  | .subtract => .ok (.number (a - b))
  | .multiply => .ok (.number (a * b))
  | .divide => if b == 0.0 then .error (.expression .divisionByZero) else .ok (.number (a / b))
  | .remainder =>
    if b == 0.0 then .error (.expression .divisionByZero) else .ok (.number (Real64.remainder a b))
  | .power => .ok (.number (a.pow b))
  | .less => .ok (.bool (decide (a < b)))
  | .lessEqual => .ok (.bool (decide (a ≤ b)))
  | .greater => .ok (.bool (decide (b < a)))
  | .greaterEqual => .ok (.bool (decide (b ≤ a)))
  | .equal => .ok (.bool (a == b))
  | .notEqual => .ok (.bool (a != b))
  | .and => .ok (.bool (a != 0.0 && b != 0.0))
  | .or => .ok (.bool (a != 0.0 || b != 0.0))

def binary (op : BinaryOp) (a b : Value) : Except Error Value :=
  match op, a, b with
  | .equal, a, b => .ok (.bool (a.same b))
  | .notEqual, a, b => .ok (.bool !(a.same b))
  | .add, .text a, b => .ok (.text (a ++ b.display))
  | .add, a, .text b => .ok (.text (a.display ++ b))
  | .add, .list as, .list bs => .ok (.list (as ++ bs))
  | op, .number a, .number b => arithmetic op a b
  | op, .text a, .text b =>
    match compareTexts? op a b with
    | some answer => .ok (.bool answer)
    | none => .error (.expression (.operands op "string" "string"))
  | op, a, b => .error (.expression (.operands op a.kind b.kind))

end Sketchwork.Value
