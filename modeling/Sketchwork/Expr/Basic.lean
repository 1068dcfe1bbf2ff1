/-
  Sketchwork.Expr.Basic — expressions, the syntax trees of argument strings.

  Every node carries the range of text it was read from.
-/
import Sketchwork.Span

namespace Sketchwork

inductive UnaryOp where
  | negate
  | not
  deriving DecidableEq, Repr

inductive BinaryOp where
  | add | subtract | multiply | divide | remainder | power
  | equal | notEqual | less | lessEqual | greater | greaterEqual
  | and | or
  deriving DecidableEq, Repr

def BinaryOp.text : BinaryOp → String
  | add => "+"
  | subtract => "-"
  | multiply => "*"
  | divide => "/"
  | remainder => "%"
  | power => "^"
  | equal => "=="
  | notEqual => "!="
  | less => "<"
  | lessEqual => "<="
  | greater => ">"
  | greaterEqual => ">="
  | and => "&&"
  | or => "||"

inductive Expr where
  | null (span : Span)
  | bool (value : Bool) (span : Span)
  | number (value : Float) (span : Span)
  | text (value : String) (span : Span)
  /-- A name to look up, without its sigil. -/
  | variable (name : String) (span : Span)
  | list (items : List Expr) (span : Span)
  | unary (op : UnaryOp) (operand : Expr) (span : Span)
  | binary (op : BinaryOp) (lhs rhs : Expr) (span : Span)
  | conditional (condition yes no : Expr) (span : Span)
  | call (function : Spanned String) (args : List Expr) (span : Span)
  | index (target at_ : Expr) (span : Span)
  | member (target : Expr) (name : Spanned String) (span : Span)
  deriving Repr, Inhabited

namespace Expr

def span : Expr → Span
  | null s | bool _ s | number _ s | text _ s | «variable» _ s | list _ s | unary _ _ s
  | binary _ _ _ s | conditional _ _ _ s | call _ _ s | index _ _ s | member _ _ s => s

def withSpan (s : Span) : Expr → Expr
  | null _ => null s
  | bool b _ => bool b s
  | number x _ => number x s
  | text t _ => text t s
  | «variable» n _ => «variable» n s
  | list es _ => list es s
  | unary op e _ => unary op e s
  | binary op a b _ => binary op a b s
  | conditional c a b _ => conditional c a b s
  | call f es _ => call f es s
  | index e i _ => index e i s
  | member e n _ => member e n s

/-- A binary node covers both operands. -/
def ofBinary (op : BinaryOp) (lhs rhs : Expr) : Expr :=
  binary op lhs rhs (lhs.span.union rhs.span)

end Expr

end Sketchwork
