/-
  Sketchwork.Proofs.Expr.Grammar — the grammar of expressions.

  The levels from the loosest to the tightest: the conditional `c ? a : b`, which groups to
  the right; six levels of infix operators, which group to the left; the prefix signs; `^`
  between a suffixed base and a signed exponent; `[i]` and `.name` behind an expression; and
  what stands alone. A `Derivation` of a phrase is a tree of applied rules. Its leaves are the
  tokens it spells (`tokens`), and `term` is the expression it stands for.

  `Level.rank` and `reach` order levels and tokens: a token that goes on with an expression
  of some level has a reach of at most the rank of that level, so a derivation of a level is
  complete before a token that reaches further (`Follows`).
-/
import Sketchwork.Expr.Parser

namespace Sketchwork

/-! ## Expressions without ranges -/

/-- An expression without the ranges of text it was read from. -/
inductive Term where
  | null
  | bool (value : Bool)
  | number (value : Float)
  | text (value : String)
  | variable (name : String)
  | list (items : List Term)
  | unary (op : UnaryOp) (operand : Term)
  | binary (op : BinaryOp) (lhs rhs : Term)
  | conditional (condition yes no : Term)
  | call (function : String) (args : List Term)
  | index (target at_ : Term)
  | member (target : Term) (name : String)
  deriving Repr, Inhabited

namespace Expr

mutual

/-- The expression without its ranges. -/
@[simp] def term : Expr → Term
  | .null _ => .null
  | .bool b _ => .bool b
  | .number x _ => .number x
  | .text s _ => .text s
  | .variable name _ => .variable name
  | .list items _ => .list (terms items)
  | .unary op e _ => .unary op (term e)
  | .binary op a b _ => .binary op (term a) (term b)
  | .conditional c a b _ => .conditional (term c) (term a) (term b)
  | .call f args _ => .call f.value (terms args)
  | .index e i _ => .index (term e) (term i)
  | .member e name _ => .member (term e) name.value

@[simp] def terms : List Expr → List Term
  | [] => []
  | e :: es => term e :: terms es

end

@[simp] theorem term_withSpan (e : Expr) (s : Span) : (e.withSpan s).term = e.term := by
  cases e <;> simp [withSpan, term]

@[simp] theorem term_ofBinary (op : BinaryOp) (a b : Expr) : (ofBinary op a b).term = .binary op a.term b.term := by
  simp [ofBinary, term]

end Expr

namespace Grammar

open Sketchwork.Parser (Tier)

/-! ## Levels and phrases -/

inductive Level where
  | conditional
  | tier (t : Tier)
  | unary
  | power
  | suffixed
  | primary
  deriving DecidableEq, Repr

/-- What the operands of a level of infix operators are. -/
def operand : Tier → Level
  | .or => .tier .and
  | .and => .tier .equality
  | .equality => .tier .comparison
  | .comparison => .tier .sum
  | .sum => .tier .product
  | .product => .unary

inductive Phrase where
  | expr (level : Level)
  /-- The items between the brackets of a call or a list, possibly none. -/
  | arguments
  /-- One or more expressions with commas between them. -/
  | items
  deriving DecidableEq, Repr

/-- What a phrase stands for. -/
abbrev Phrase.Meaning : Phrase → Type
  | .expr _ => Term
  | .arguments | .items => List Term

/-- What a phrase is read as. -/
abbrev Phrase.Tree : Phrase → Type
  | .expr _ => Expr
  | .arguments | .items => List Expr

/-- What a phrase that was read stands for. -/
@[simp] def Phrase.meaning : (p : Phrase) → p.Tree → p.Meaning
  | .expr _, e => e.term
  | .arguments, es | .items, es => Expr.terms es

/-! ## Words -/

/-- The infix operators of each level. -/
inductive Joins : Tier → Token → BinaryOp → Prop
  | pipes : Joins .or .pipePipe .or
  | or : Joins .or .or .or
  | ampersands : Joins .and .ampAmp .and
  | and : Joins .and .and .and
  | equal : Joins .equality .equalEqual .equal
  | notEqual : Joins .equality .bangEqual .notEqual
  | less : Joins .comparison .less .less
  | lessEqual : Joins .comparison .lessEqual .lessEqual
  | greater : Joins .comparison .greater .greater
  | greaterEqual : Joins .comparison .greaterEqual .greaterEqual
  | plus : Joins .sum .plus .add
  | minus : Joins .sum .minus .subtract
  | star : Joins .product .star .multiply
  | slash : Joins .product .slash .divide
  | percent : Joins .product .percent .remainder

/-- The prefix signs. -/
inductive Signs : Token → UnaryOp → Prop
  | minus : Signs .minus .negate
  | bang : Signs .bang .not
  | not : Signs .not .not

/-- The tokens that are values as they stand. -/
inductive Denotes : Token → Term → Prop
  | null : Denotes .null .null
  | true : Denotes .true (.bool true)
  | false : Denotes .false (.bool false)
  | number (x : Float) : Denotes (.number x) (.number x)
  | text (s : String) : Denotes (.text s) (.text s)

/-- The value that a token is as it stands. -/
def valueOf : Token → Span → Expr
  | .true, s => .bool true s
  | .false, s => .bool false s
  | .number x, s => .number x s
  | .text t, s => .text t s
  | _, s => .null s

/-- A name as it was written. -/
def written (sigil : Bool) (word : String) : String :=
  if sigil then "$" ++ word else word

/-! ## Derivations -/

inductive Derivation : Phrase → Type
  /-- `c ? a : b` -/
  | choice (c : Derivation (.expr (.tier .or))) (question : Span) (yes : Derivation (.expr .conditional))
      (colon : Span) (no : Derivation (.expr .conditional)) : Derivation (.expr .conditional)
  | plain (e : Derivation (.expr (.tier .or))) : Derivation (.expr .conditional)
  /-- `a op b`, where `a` may hold operators of the same level and `b` may not -/
  | operation {t : Tier} (lhs : Derivation (.expr (.tier t))) (sign : Spanned Token) {op : BinaryOp}
      (joins : Joins t sign.value op) (rhs : Derivation (.expr (operand t))) : Derivation (.expr (.tier t))
  | single {t : Tier} (e : Derivation (.expr (operand t))) : Derivation (.expr (.tier t))
  /-- `-a`, `!a`, `not a` -/
  | signed (sign : Spanned Token) {op : UnaryOp} (signs : Signs sign.value op) (e : Derivation (.expr .unary)) :
      Derivation (.expr .unary)
  | unsigned (e : Derivation (.expr .power)) : Derivation (.expr .unary)
  /-- `a ^ b` -/
  | raised (base : Derivation (.expr .suffixed)) (caret : Span) (exponent : Derivation (.expr .unary)) :
      Derivation (.expr .power)
  | unraised (e : Derivation (.expr .suffixed)) : Derivation (.expr .power)
  /-- `a[i]` -/
  | indexed (target : Derivation (.expr .suffixed)) (opening : Span) (at_ : Derivation (.expr .conditional))
      (closing : Span) : Derivation (.expr .suffixed)
  /-- `a.name` -/
  | member (target : Derivation (.expr .suffixed)) (dot : Span) (sigil : Bool) (word : String) (span : Span) :
      Derivation (.expr .suffixed)
  | unsuffixed (e : Derivation (.expr .primary)) : Derivation (.expr .suffixed)
  | literal (token : Spanned Token) {value : Term} (denotes : Denotes token.value value) : Derivation (.expr .primary)
  | name (sigil : Bool) (word : String) (span : Span) : Derivation (.expr .primary)
  /-- `f(a, b)` -/
  | call (word : String) (span opening : Span) (args : Derivation .arguments) (closing : Span) :
      Derivation (.expr .primary)
  /-- `(a)` -/
  | grouped (opening : Span) (e : Derivation (.expr .conditional)) (closing : Span) : Derivation (.expr .primary)
  /-- `[a, b]` -/
  | list (opening : Span) (items : Derivation .arguments) (closing : Span) : Derivation (.expr .primary)
  | none : Derivation .arguments
  | some (items : Derivation .items) : Derivation .arguments
  | last (e : Derivation (.expr .conditional)) : Derivation .items
  | more (e : Derivation (.expr .conditional)) (comma : Span) (items : Derivation .items) : Derivation .items

/-- The derivations of an expression of a level. -/
abbrev Derived (level : Level) : Type :=
  Derivation (.expr level)

namespace Derivation

/-- The tokens that a derivation spells. -/
@[simp] def tokens {p : Phrase} : Derivation p → Tokens
  | choice c question yes colon no =>
    c.tokens ++ ⟨.question, question⟩ :: (yes.tokens ++ ⟨.colon, colon⟩ :: no.tokens)
  | operation lhs sign _ rhs => lhs.tokens ++ sign :: rhs.tokens
  | signed sign _ e => sign :: e.tokens
  | raised base caret exponent => base.tokens ++ ⟨.caret, caret⟩ :: exponent.tokens
  | indexed target opening at_ closing =>
    target.tokens ++ ⟨.leftBracket, opening⟩ :: (at_.tokens ++ [⟨.rightBracket, closing⟩])
  | member target dot sigil word span => target.tokens ++ [⟨.dot, dot⟩, ⟨.name sigil word, span⟩]
  | literal token _ => [token]
  | name sigil word span => [⟨.name sigil word, span⟩]
  | call word span opening args closing =>
    ⟨.name false word, span⟩ :: ⟨.leftParen, opening⟩ :: (args.tokens ++ [⟨.rightParen, closing⟩])
  | grouped opening e closing => ⟨.leftParen, opening⟩ :: (e.tokens ++ [⟨.rightParen, closing⟩])
  | list opening items closing => ⟨.leftBracket, opening⟩ :: (items.tokens ++ [⟨.rightBracket, closing⟩])
  | none => []
  | more e comma items => e.tokens ++ ⟨.comma, comma⟩ :: items.tokens
  | plain e | single e | unsigned e | unraised e | unsuffixed e | some e | last e => e.tokens

/-- The expression, or the expressions, that a derivation stands for. -/
@[simp] def term {p : Phrase} : Derivation p → p.Meaning
  | choice c _ yes _ no => Term.conditional c.term yes.term no.term
  | @operation _ lhs _ op _ rhs => Term.binary op lhs.term rhs.term
  | @signed _ op _ e => Term.unary op e.term
  | raised base _ exponent => Term.binary .power base.term exponent.term
  | indexed target _ at_ _ => Term.index target.term at_.term
  | member target _ sigil word _ => Term.member target.term (written sigil word)
  | @literal _ value _ => value
  | name _ word _ => Term.variable word
  | call word _ _ args _ => Term.call word args.term
  | grouped _ e _ => e.term
  | list _ items _ => Term.list items.term
  | none => []
  | some items => items.term
  | last e => [e.term]
  | more e _ items => e.term :: items.term
  | plain e | single e | unsigned e | unraised e | unsuffixed e => e.term

/-- The expression, or the expressions, that the tokens of a derivation are read as. -/
@[simp] def tree {p : Phrase} : Derivation p → p.Tree
  | choice c _ yes _ no => Expr.conditional c.tree yes.tree no.tree (c.tree.span.union no.tree.span)
  | @operation _ lhs _ op _ rhs => Expr.ofBinary op lhs.tree rhs.tree
  | @signed sign op _ e => Expr.unary op e.tree (sign.span.union e.tree.span)
  | raised base _ exponent => Expr.ofBinary .power base.tree exponent.tree
  | indexed target _ at_ closing => Expr.index target.tree at_.tree (target.tree.span.union closing)
  | member target _ sigil word span => Expr.member target.tree ⟨written sigil word, span⟩ (target.tree.span.union span)
  | literal token _ => valueOf token.value token.span
  | name _ word span => Expr.variable word span
  | call word span _ args closing => Expr.call ⟨word, span⟩ args.tree (span.union closing)
  | grouped opening e closing => e.tree.withSpan (opening.union closing)
  | list opening items closing => Expr.list items.tree (opening.union closing)
  | none => []
  | some items => items.tree
  | last e => [e.tree]
  | more e _ items => e.tree :: items.tree
  | plain e | single e | unsigned e | unraised e | unsuffixed e => e.tree

/-- What a derivation is read as stands for what the derivation does. -/
theorem meaning_tree {p : Phrase} (d : Derivation p) : p.meaning d.tree = d.term := by
  induction d with
  | literal token denotes =>
    obtain ⟨t, s⟩ := token
    cases denotes <;> rfl
  | _ => simp_all

end Derivation

/-! ## Where a phrase ends -/

@[simp] def Level.rank : Level → Nat
  | .primary => 0
  | .suffixed => 1
  | .power | .unary => 2
  | .tier .product => 3
  | .tier .sum => 4
  | .tier .comparison => 5
  | .tier .equality => 6
  | .tier .and => 7
  | .tier .or => 8
  | .conditional => 9

/-- The rank of the tightest level whose expressions can go on with the token, 10 for the
    comma of a list of items; a name before an opening parenthesis is a call. -/
def reach : Token → Nat
  | .leftParen => 0
  | .leftBracket | .dot => 1
  | .caret => 2
  | .star | .slash | .percent => 3
  | .plus | .minus => 4
  | .less | .lessEqual | .greater | .greaterEqual => 5
  | .equalEqual | .bangEqual => 6
  | .ampAmp | .and => 7
  | .pipePipe | .or => 8
  | .question => 9
  | .comma => 10
  | _ => 11

/-- No expression of rank `rank` goes on with the tokens. -/
def Follows (rank : Nat) (ts : Tokens) : Prop :=
  ∀ t ∈ ts.head?, rank < reach t.value

@[simp] theorem follows_nil (rank : Nat) : Follows rank [] := by
  simp [Follows]

@[simp] theorem follows_cons (rank : Nat) (t : Spanned Token) (ts : Tokens) :
    Follows rank (t :: ts) ↔ rank < reach t.value := by
  simp [Follows]

theorem Follows.cons {rank : Nat} {t : Token} {s : Span} (h : rank < reach t) (ts : Tokens) :
    Follows rank (⟨t, s⟩ :: ts) :=
  (follows_cons rank ⟨t, s⟩ ts).mpr h

theorem Follows.lt {rank : Nat} {t : Token} {s : Span} {ts : Tokens} (h : Follows rank (⟨t, s⟩ :: ts)) : rank < reach t :=
  (follows_cons rank ⟨t, s⟩ ts).mp h

theorem Follows.mono {m n : Nat} {ts : Tokens} (h : Follows n ts) (le : m ≤ n) : Follows m ts :=
  fun t ht => Nat.lt_of_le_of_lt le (h t ht)

theorem rank_operand (t : Tier) : (operand t).rank + 1 = (Level.tier t).rank := by
  cases t <;> rfl

theorem Joins.reach_eq {t : Tier} {token : Token} {op : BinaryOp} (h : Joins t token op) :
    reach token = (Level.tier t).rank := by
  cases h <;> rfl

theorem Joins.unique {t : Tier} {token : Token} {op op' : BinaryOp} (h : Joins t token op)
    (h' : Joins t token op') : op = op' := by
  cases h <;> cases h' <;> rfl

theorem Signs.unique {token : Token} {op op' : UnaryOp} (h : Signs token op) (h' : Signs token op') : op = op' := by
  cases h <;> cases h' <;> rfl

theorem Denotes.unique {token : Token} {value value' : Term} (h : Denotes token value) (h' : Denotes token value') :
    value = value' := by
  cases h <;> cases h' <;> rfl

end Grammar

end Sketchwork
