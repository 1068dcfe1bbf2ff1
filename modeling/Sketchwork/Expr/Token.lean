/-
  Sketchwork.Expr.Token — the words of the expression language.
-/
import Sketchwork.Decimal.Shortest
import Sketchwork.Span

namespace Sketchwork

inductive Token where
  | number (value : Float)
  | text (value : String)
  /-- A name; `sigil` when it was written with a leading dollar sign. -/
  | name (sigil : Bool) (word : String)
  | true | false | null | and | or | not
  | plus | minus | star | slash | percent | caret
  | equalEqual | bangEqual | less | lessEqual | greater | greaterEqual
  | ampAmp | pipePipe | bang | question | colon
  | comma | dot | leftParen | rightParen | leftBracket | rightBracket
  deriving Repr, BEq

namespace Token

/-- The token as messages show it. -/
def shown : Token → String
  | number x => Decimal.plain x
  | text s => "\"" ++ s ++ "\""
  | name sigil word => if sigil then "$" ++ word else word
  | true => "true"
  | false => "false"
  | null => "null"
  | and => "and"
  | or => "or"
  | not => "not"
  | plus => "+"
  | minus => "-"
  | star => "*"
  | slash => "/"
  | percent => "%"
  | caret => "^"
  | equalEqual => "=="
  | bangEqual => "!="
  | less => "<"
  | lessEqual => "<="
  | greater => ">"
  | greaterEqual => ">="
  | ampAmp => "&&"
  | pipePipe => "||"
  | bang => "!"
  | question => "?"
  | colon => ":"
  | comma => ","
  | dot => "."
  | leftParen => "("
  | rightParen => ")"
  | leftBracket => "["
  | rightBracket => "]"

/-- Whether an expression can begin with the token. -/
def opensExpression : Token → Bool
  | number _ | text _ | name _ _ | true | false | null => Bool.true
  | minus | bang | not | leftParen | leftBracket => Bool.true
  | _ => Bool.false

end Token

end Sketchwork
