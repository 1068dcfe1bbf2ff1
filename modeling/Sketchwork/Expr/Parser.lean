/-
  Sketchwork.Expr.Parser — reading an expression from its tokens.

  From the loosest level to the tightest: `c ? a : b` (to the right), `||`, `&&`,
  equality, comparison, sums, products (each to the left), the signs `-`, `!` and `not`,
  `^` (its exponent may be signed), and `f(…)`, `a[i]`, `a.b`. Every reader takes the
  tokens and returns the tree with the tokens after it, or the place where it had to
  stop and what could have stood there. A list of items ends at the first comma that no
  expression follows.

  Readers recurse on a bound on the number of nested readers; `depthBound` is enough for
  any list of tokens, since fewer than twenty readers open between two tokens.
-/
import Sketchwork.Expr.Basic
import Sketchwork.Expr.Lexer

namespace Sketchwork

abbrev Tokens := List (Spanned Token)

namespace Parser

/-- Where reading had to stop, and what could have stood there. -/
structure Stop where
  expected : Expected
  rest : Tokens
  deriving Repr

/-- The levels of binary operators that group to the left. -/
inductive Tier where
  | or | and | equality | comparison | sum | product
  deriving DecidableEq, Repr

/-- The next tighter level; below products stand the signs. -/
def Tier.tighter : Tier → Option Tier
  | or => some and
  | and => some equality
  | equality => some comparison
  | comparison => some sum
  | sum => some product
  | product => none

def Tier.operator? : Tier → Token → Option BinaryOp
  | or, .pipePipe | or, .or => some .or
  | and, .ampAmp | and, .and => some .and
  | equality, .equalEqual => some .equal
  | equality, .bangEqual => some .notEqual
  | comparison, .less => some .less
  | comparison, .lessEqual => some .lessEqual
  | comparison, .greater => some .greater
  | comparison, .greaterEqual => some .greaterEqual
  | sum, .plus => some .add
  | sum, .minus => some .subtract
  | product, .star => some .multiply
  | product, .slash => some .divide
  | product, .percent => some .remainder
  | _, _ => none

/-- The sign that a token is. -/
def sign? : Token → Option UnaryOp
  | .minus => some .negate
  | .bang | .not => some .not
  | _ => none

/-- Exactly the punctuation `t`, whose span is returned. -/
def expect (t : Token) (expected : Expected) : Tokens → Except Stop (Span × Tokens)
  | ⟨t', span⟩ :: ts => if t' == t then .ok (span, ts) else .error ⟨expected, ⟨t', span⟩ :: ts⟩
  | [] => .error ⟨expected, []⟩

def opens : Tokens → Bool
  | t :: _ => t.value.opensExpression
  | [] => false

mutual

/-- `or`, or `or ? conditional : conditional`. -/
def conditional : Nat → Tokens → Except Stop (Expr × Tokens)
  | 0, ts => .error ⟨.expression, ts⟩
  | n + 1, ts => do
    let (c, ts) ← binary n .or ts
    match ts with
    | ⟨.question, _⟩ :: ts =>
      let (yes, ts) ← conditional n ts
      let (_, ts) ← expect .colon .colon ts
      let (no, ts) ← conditional n ts
      return (.conditional c yes no (c.span.union no.span), ts)
    | ts => return (c, ts)

/-- An operand of one level, then operators of that level with their right operands. -/
def binary : Nat → Tier → Tokens → Except Stop (Expr × Tokens)
  | 0, _, ts => .error ⟨.expression, ts⟩
  | n + 1, tier, ts => do
    let (lhs, ts) ← operand n tier ts
    operations n tier lhs ts

/-- An operand of a binary level: whatever is tighter. -/
def operand : Nat → Tier → Tokens → Except Stop (Expr × Tokens)
  | 0, _, ts => .error ⟨.expression, ts⟩
  | n + 1, tier, ts =>
    match tier.tighter with
    | some tighter => binary n tighter ts
    | none => unary n ts

def operations : Nat → Tier → Expr → Tokens → Except Stop (Expr × Tokens)
  | 0, _, _, ts => .error ⟨.expression, ts⟩
  | n + 1, tier, lhs, ts =>
    match ts with
    | [] => .ok (lhs, [])
    | t :: rest =>
      match tier.operator? t.value with
      | none => .ok (lhs, t :: rest)
      | some op => do
        let (rhs, rest) ← operand n tier rest
        operations n tier (.ofBinary op lhs rhs) rest

def unary : Nat → Tokens → Except Stop (Expr × Tokens)
  | 0, ts => .error ⟨.expression, ts⟩
  | n + 1, ts =>
    match ts with
    | [] => power n []
    | t :: rest =>
      match sign? t.value with
      | none => power n (t :: rest)
      | some op => do
        let (e, rest) ← unary n rest
        return (.unary op e (t.span.union e.span), rest)

/-- `postfix`, or `postfix ^ unary`. -/
def power : Nat → Tokens → Except Stop (Expr × Tokens)
  | 0, ts => .error ⟨.expression, ts⟩
  | n + 1, ts => do
    let (base, ts) ← primary n ts
    let (base, ts) ← suffixes n base ts
    match ts with
    | ⟨.caret, _⟩ :: ts =>
      let (exponent, ts) ← unary n ts
      return (.ofBinary .power base exponent, ts)
    | ts => return (base, ts)

/-- Indices and member names after an expression. -/
def suffixes : Nat → Expr → Tokens → Except Stop (Expr × Tokens)
  | 0, _, ts => .error ⟨.expression, ts⟩
  | n + 1, target, ts =>
    match ts with
    | ⟨.leftBracket, _⟩ :: ts => do
      let (i, ts) ← conditional n ts
      let (close, ts) ← expect .rightBracket .closingBracket ts
      suffixes n (.index target i (target.span.union close)) ts
    | ⟨.dot, _⟩ :: ⟨.name sigil word, span⟩ :: ts =>
      let name := if sigil then "$" ++ word else word
      suffixes n (.member target ⟨name, span⟩ (target.span.union span)) ts
    | ⟨.dot, _⟩ :: ts => .error ⟨.identifier, ts⟩
    | ts => .ok (target, ts)

def primary : Nat → Tokens → Except Stop (Expr × Tokens)
  | 0, ts => .error ⟨.expression, ts⟩
  | n + 1, ts =>
    match ts with
    | ⟨.number x, span⟩ :: ts => .ok (.number x span, ts)
    | ⟨.text s, span⟩ :: ts => .ok (.text s span, ts)
    | ⟨.true, span⟩ :: ts => .ok (.bool true span, ts)
    | ⟨.false, span⟩ :: ts => .ok (.bool false span, ts)
    | ⟨.null, span⟩ :: ts => .ok (.null span, ts)
    | ⟨.name false word, span⟩ :: ⟨.leftParen, _⟩ :: ts => do
      let (args, ts) ← items n ts
      let (close, ts) ← expect .rightParen .closingDelimiter ts
      return (.call ⟨word, span⟩ args (span.union close), ts)
    | ⟨.name _ word, span⟩ :: ts => .ok (.variable word span, ts)
    | ⟨.leftParen, span⟩ :: ts => do
      let (e, ts) ← conditional n ts
      let (close, ts) ← expect .rightParen .closingParen ts
      return (e.withSpan (span.union close), ts)
    | ⟨.leftBracket, span⟩ :: ts => do
      let (es, ts) ← items n ts
      let (close, ts) ← expect .rightBracket .closingDelimiter ts
      return (.list es (span.union close), ts)
    | ts => .error ⟨.expression, ts⟩

/-- Expressions separated by commas, none where none begins. -/
def items : Nat → Tokens → Except Stop (List Expr × Tokens)
  | 0, ts => .error ⟨.expression, ts⟩
  | n + 1, ts =>
    if opens ts then do
      let (e, ts) ← conditional n ts
      let (es, ts) ← moreItems n ts
      return (e :: es, ts)
    else .ok ([], ts)

/-- The items after the first, each behind its comma. -/
def moreItems : Nat → Tokens → Except Stop (List Expr × Tokens)
  | 0, ts => .error ⟨.expression, ts⟩
  | n + 1, ts =>
    match ts with
    | ⟨.comma, span⟩ :: rest =>
      if opens rest then do
        let (e, rest) ← conditional n rest
        let (es, rest) ← moreItems n rest
        return (e :: es, rest)
      else .ok ([], ⟨.comma, span⟩ :: rest)
    | ts => .ok ([], ts)

end

/-- A number of nested readers that no list of tokens exceeds. -/
def depthBound (ts : Tokens) : Nat :=
  20 * (ts.length + 1)

/-- The expression that a whole list of tokens is, or the one diagnostic. `whole` is the
    range of the text they came from. -/
def expression (whole : Span) (ts : Tokens) : Except Diagnostic Expr :=
  match conditional (depthBound ts) ts with
  | .ok (e, []) => .ok e
  | .ok (_, t :: _) => .error ⟨.tokenAfterEnd t.value, t.span⟩
  | .error ⟨expected, t :: _⟩ => .error ⟨.unexpectedToken t.value expected, t.span⟩
  | .error ⟨expected, []⟩ => .error ⟨.endedEarly expected, .between (whole.stop - 1) whole.stop⟩

end Parser

/-- Reads an expression whose first byte is at `offset` of the document. -/
def Expr.read (offset : Nat) (text : List Char) : Except (List Diagnostic) Expr := do
  let ts ← Lexer.tokenize offset text
  match Parser.expression (.sized offset (Text.width text)) ts with
  | .ok e => .ok e
  | .error d => .error [d]

end Sketchwork
