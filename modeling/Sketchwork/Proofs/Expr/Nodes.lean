/-
  Sketchwork.Proofs.Expr.Nodes — the nodes of an expression, and the parts of the text they were
  read from.

  Every node of an expression that was read is the tree of a derivation whose tokens stand next to
  each other among those of the expression (`readFrom_of_node`), and its range is that of these
  tokens (`covers_tree`). So the text at that range has these tokens and is read as the node
  (`Expr.read_part`), a variable, a number or a text as any other (`Expr.read_leaf`). Trees move
  with their tokens (`tree_respan`), and tokens with their text (`Lexer.exists_of_run_eq`).

  Proved: the range of every node is a part of the text, the ranges of its children lie in it, and
  the text there, read on its own, is the node moved to where the text stands
  (`Expr.read_node`).
-/
import Mathlib
import Sketchwork.Proofs.Expr.Parsing
import Sketchwork.Proofs.Expr.Scanning

namespace Sketchwork

open Text (width)

/-! ## Nodes -/

namespace Expr

/-- The expressions that an expression is put together of. -/
@[simp] def children : Expr → List Expr
  | .null _ | .bool _ _ | .number _ _ | .text _ _ | .variable _ _ => []
  | .list items _ => items
  | .unary _ e _ => [e]
  | .binary _ a b _ => [a, b]
  | .conditional c a b _ => [c, a, b]
  | .call _ args _ => args
  | .index e i _ => [e, i]
  | .member e _ _ => [e]

/-- The nodes of an expression: itself, its children, theirs, and so on. -/
inductive Node (e : Expr) : Expr → Prop
  | root : Node e e
  | child {parent node : Expr} (h : Node e parent) (hchild : node ∈ parent.children) : Node e node

/-- The nodes of a child are nodes of its parent. -/
theorem Node.of_child {e child node : Expr} (hchild : child ∈ e.children) (h : child.Node node) : e.Node node := by
  induction h with
  | root => exact .child .root hchild
  | child _ hnode ih => exact .child ih hnode

mutual

/-- The variables, numbers and texts of an expression. -/
def leaves : Expr → List Expr
  | .null _ | .bool _ _ => []
  | .number x s => [.number x s]
  | .text t s => [.text t s]
  | .variable name s => [.variable name s]
  | .list items _ => leavesOfAll items
  | .unary _ e _ => leaves e
  | .binary _ a b _ => leaves a ++ leaves b
  | .conditional c a b _ => leaves c ++ leaves a ++ leaves b
  | .call _ args _ => leavesOfAll args
  | .index e i _ => leaves e ++ leaves i
  | .member e _ _ => leaves e

def leavesOfAll : List Expr → List Expr
  | [] => []
  | e :: es => leaves e ++ leavesOfAll es

end

mutual

theorem node_of_mem_leaves : ∀ {e leaf : Expr}, leaf ∈ e.leaves → e.Node leaf
  | .null _, _, h | .bool _ _, _, h => by cases h
  | .number _ _, _, h | .text _ _, _, h | .variable _ _, _, h => List.mem_singleton.mp h ▸ .root
  | .list items _, _, h | .call _ items _, _, h => by
    obtain ⟨child, hchild, hnode⟩ := exists_node_of_mem_leaves h
    exact .of_child hchild hnode
  | .unary _ _ _, _, h | .member _ _ _, _, h => .of_child List.mem_cons_self (node_of_mem_leaves h)
  | .binary _ _ _ _, _, h | .index _ _ _, _, h => by
    rcases List.mem_append.mp h with h | h
    · exact .of_child List.mem_cons_self (node_of_mem_leaves h)
    · exact .of_child (List.mem_cons_of_mem _ List.mem_cons_self) (node_of_mem_leaves h)
  | .conditional _ _ _ _, _, h => by
    rcases List.mem_append.mp h with h | h
    · rcases List.mem_append.mp h with h | h
      · exact .of_child List.mem_cons_self (node_of_mem_leaves h)
      · exact .of_child (List.mem_cons_of_mem _ List.mem_cons_self) (node_of_mem_leaves h)
    · exact .of_child (List.mem_cons_of_mem _ (List.mem_cons_of_mem _ List.mem_cons_self)) (node_of_mem_leaves h)

theorem exists_node_of_mem_leaves : ∀ {es : List Expr} {leaf : Expr}, leaf ∈ leavesOfAll es → ∃ e ∈ es, e.Node leaf
  | [], _, h => by cases h
  | e :: es, _, h => by
    rcases List.mem_append.mp h with h | h
    · exact ⟨e, List.mem_cons_self, node_of_mem_leaves h⟩
    · obtain ⟨child, hchild, hnode⟩ := exists_node_of_mem_leaves h
      exact ⟨child, List.mem_cons_of_mem _ hchild, hnode⟩

end

@[simp] theorem children_withSpan (e : Expr) (s : Span) : (e.withSpan s).children = e.children := by
  cases e <;> rfl

theorem span_withSpan (e : Expr) (s : Span) : (e.withSpan s).span = s := by
  cases e <;> rfl

@[simp] theorem children_ofBinary (op : BinaryOp) (a b : Expr) : (ofBinary op a b).children = [a, b] :=
  rfl

mutual

/-- The expression with all its ranges replaced. -/
@[simp] def respan (f : Span → Span) : Expr → Expr
  | .null s => .null (f s)
  | .bool b s => .bool b (f s)
  | .number x s => .number x (f s)
  | .text t s => .text t (f s)
  | .variable name s => .variable name (f s)
  | .list items s => .list (respanAll f items) (f s)
  | .unary op e s => .unary op (respan f e) (f s)
  | .binary op a b s => .binary op (respan f a) (respan f b) (f s)
  | .conditional c a b s => .conditional (respan f c) (respan f a) (respan f b) (f s)
  | .call function args s => .call ⟨function.value, f function.span⟩ (respanAll f args) (f s)
  | .index e i s => .index (respan f e) (respan f i) (f s)
  | .member e name s => .member (respan f e) ⟨name.value, f name.span⟩ (f s)

@[simp] def respanAll (f : Span → Span) : List Expr → List Expr
  | [] => []
  | e :: es => respan f e :: respanAll f es

end

/-- The expression `n` bytes further right. -/
def shift (n : Nat) (e : Expr) : Expr :=
  e.respan (Span.shift n)

theorem span_respan (f : Span → Span) (e : Expr) : (e.respan f).span = f e.span := by
  cases e <;> simp [span]

@[simp] theorem respan_withSpan (f : Span → Span) (e : Expr) (s : Span) :
    (e.withSpan s).respan f = (e.respan f).withSpan (f s) := by
  cases e <;> simp [withSpan]

end Expr

namespace Grammar

open Sketchwork.Parser (Tier)
open Sketchwork.Lexer (InOrder)

/-! ## Derivations of nodes -/

/-- An expression of any level as one of the loosest. -/
def widen : {l : Level} → Derived l → Derived .conditional
  | .conditional, d => d
  | .tier .or, d => .plain d
  | .tier .and, d => .plain (.single d)
  | .tier .equality, d => .plain (.single (.single d))
  | .tier .comparison, d => .plain (.single (.single (.single d)))
  | .tier .sum, d => .plain (.single (.single (.single (.single d))))
  | .tier .product, d => .plain (.single (.single (.single (.single (.single d)))))
  | .unary, d => .plain (.single (.single (.single (.single (.single (.single d))))))
  | .power, d => .plain (.single (.single (.single (.single (.single (.single (.unsigned d)))))))
  | .suffixed, d => .plain (.single (.single (.single (.single (.single (.single (.unsigned (.unraised d))))))))
  | .primary, d =>
    .plain (.single (.single (.single (.single (.single (.single (.unsigned (.unraised (.unsuffixed d)))))))))

@[simp] theorem tokens_widen {l : Level} (d : Derived l) : (widen d).tokens = d.tokens := by
  cases l with
  | tier t => cases t <;> rfl
  | _ => rfl

@[simp] theorem tree_widen {l : Level} (d : Derived l) : (widen d).tree = d.tree := by
  cases l with
  | tier t => cases t <;> rfl
  | _ => rfl

/-- The expression is read from tokens that stand next to each other among these. -/
def ReadFrom (ts : Tokens) (e : Expr) : Prop :=
  ∃ d : Derived .conditional, d.tree = e ∧ d.tokens <:+: ts

theorem ReadFrom.mono {ts ts' : Tokens} {e : Expr} (h : ReadFrom ts e) (hts : ts <:+: ts') : ReadFrom ts' e := by
  obtain ⟨d, hd, hpart⟩ := h
  exact ⟨d, hd, hpart.trans hts⟩

theorem readFrom_tree {l : Level} (d : Derived l) : ReadFrom d.tokens d.tree :=
  ⟨widen d, tree_widen d, by simp only [tokens_widen, List.infix_refl]⟩

/-- The expressions directly below what a phrase is read as. -/
@[simp] def Phrase.parts : (p : Phrase) → p.Tree → List Expr
  | .expr _, e => e.children
  | .arguments, es | .items, es => es

theorem readFrom_part {p : Phrase} (d : Derivation p) : ∀ e ∈ p.parts d.tree, ReadFrom d.tokens e := by
  intro e he
  induction d with
  | choice c question yes colon no =>
    simp only [Phrase.parts, Derivation.tree, Expr.children, List.mem_cons, List.not_mem_nil, or_false] at he
    rcases he with rfl | rfl | rfl
    · exact (readFrom_tree c).mono (List.prefix_append ..).isInfix
    · exact (readFrom_tree yes).mono ⟨c.tokens ++ [⟨.question, question⟩], ⟨.colon, colon⟩ :: no.tokens, by simp⟩
    · exact (readFrom_tree no).mono
        ⟨c.tokens ++ ⟨.question, question⟩ :: (yes.tokens ++ [⟨.colon, colon⟩]), [], by simp⟩
  | operation lhs sign _ rhs =>
    simp only [Phrase.parts, Derivation.tree, Expr.children_ofBinary, List.mem_cons, List.not_mem_nil, or_false] at he
    rcases he with rfl | rfl
    · exact (readFrom_tree lhs).mono (List.prefix_append ..).isInfix
    · exact (readFrom_tree rhs).mono ⟨lhs.tokens ++ [sign], [], by simp⟩
  | raised base caret exponent =>
    simp only [Phrase.parts, Derivation.tree, Expr.children_ofBinary, List.mem_cons, List.not_mem_nil, or_false] at he
    rcases he with rfl | rfl
    · exact (readFrom_tree base).mono (List.prefix_append ..).isInfix
    · exact (readFrom_tree exponent).mono ⟨base.tokens ++ [⟨.caret, caret⟩], [], by simp⟩
  | indexed target opening at_ closing =>
    simp only [Phrase.parts, Derivation.tree, Expr.children, List.mem_cons, List.not_mem_nil, or_false] at he
    rcases he with rfl | rfl
    · exact (readFrom_tree target).mono (List.prefix_append ..).isInfix
    · exact (readFrom_tree at_).mono
        ⟨target.tokens ++ [⟨.leftBracket, opening⟩], [⟨.rightBracket, closing⟩], by simp⟩
  | signed sign _ operand =>
    obtain rfl := List.mem_singleton.mp he
    exact (readFrom_tree operand).mono (List.suffix_cons ..).isInfix
  | member target dot sigil word span =>
    obtain rfl := List.mem_singleton.mp he
    exact (readFrom_tree target).mono (List.prefix_append ..).isInfix
  | literal token denotes =>
    obtain ⟨t, s⟩ := token
    cases denotes <;> cases he
  | name | none => cases he
  | plain _ ih | single _ ih | unsigned _ ih | unraised _ ih | unsuffixed _ ih | some _ ih => exact ih he
  | call word span opening args closing ih =>
    exact (ih he).mono ⟨[⟨.name false word, span⟩, ⟨.leftParen, opening⟩], [⟨.rightParen, closing⟩], rfl⟩
  | list opening items closing ih =>
    exact (ih he).mono ⟨[⟨.leftBracket, opening⟩], [⟨.rightBracket, closing⟩], rfl⟩
  | grouped opening inner closing ih =>
    rw [Derivation.tree, Phrase.parts, Expr.children_withSpan] at he
    exact (ih he).mono ⟨[⟨.leftParen, opening⟩], [⟨.rightParen, closing⟩], rfl⟩
  | last item =>
    obtain rfl := List.mem_singleton.mp he
    exact readFrom_tree item
  | more item comma items _ ih =>
    rcases List.mem_cons.mp he with rfl | he
    · exact (readFrom_tree item).mono (List.prefix_append ..).isInfix
    · exact (ih he).mono ⟨item.tokens ++ [⟨.comma, comma⟩], [], by simp⟩

/-- Every node is read from a part of the tokens. -/
theorem readFrom_of_node {d : Derived .conditional} {node : Expr} (h : d.tree.Node node) : ReadFrom d.tokens node := by
  induction h with
  | root => exact readFrom_tree d
  | child _ hchild ih =>
    obtain ⟨parent, rfl, hpart⟩ := ih
    exact (readFrom_part parent _ hchild).mono hpart

/-! ## Ranges of nodes -/

/-- A range that begins with the first of the tokens and ends with the last. -/
structure Covers (ts : Tokens) (s : Span) : Prop where
  start : ∃ t ∈ ts.head?, s.start = t.span.start
  stop : ∃ t ∈ ts.getLast?, s.stop = t.span.stop

theorem inOrder_of_part {ts ts' : Tokens} (hts : ts <:+: ts') (h : InOrder ts') : InOrder ts :=
  h.sublist hts.sublist

theorem covers_singleton (t : Spanned Token) : Covers [t] t.span :=
  ⟨⟨t, rfl, rfl⟩, ⟨t, rfl, rfl⟩⟩

/-- The range from one part of the tokens to another one behind it. -/
theorem Covers.union {a b : Tokens} {s s' : Span} (h : Covers a s) (h' : Covers b s') (m : Tokens)
    (horder : InOrder (a ++ (m ++ b))) : Covers (a ++ (m ++ b)) (s.union s') := by
  obtain ⟨⟨t, ht, hstart⟩, u, hu, hstop⟩ := h
  obtain ⟨⟨t', ht', hstart'⟩, u', hu', hstop'⟩ := h'
  have hbetween : u.span.stop ≤ t'.span.start := (List.pairwise_append.mp horder).2.2 u (List.mem_of_getLast? hu) t'
    (List.mem_append_right m (List.mem_of_head? ht'))
  have hs := s.ordered
  have hs' := s'.ordered
  refine ⟨⟨t, by simp [Option.mem_def.mp ht], ?_⟩, u', by simp [List.getLast?_append, Option.mem_def.mp hu'], ?_⟩
  · simp only [Span.union]
    omega
  · simp only [Span.union]
    omega

/-- What the induction on derivations carries. -/
def CoversTree : (p : Phrase) → Derivation p → Prop
  | .expr _, d => InOrder d.tokens → Covers d.tokens d.tree.span
  | .arguments, _ | .items, _ => True

theorem coversTree {p : Phrase} (d : Derivation p) : CoversTree p d := by
  induction d with
  | choice c question yes colon no hc _ hn =>
    intro h
    have hcondition : Covers c.tokens c.tree.span := hc (inOrder_of_part (List.prefix_append ..).isInfix h)
    have hno : Covers no.tokens no.tree.span :=
      hn (inOrder_of_part ⟨c.tokens ++ ⟨.question, question⟩ :: (yes.tokens ++ [⟨.colon, colon⟩]), [], by simp⟩ h)
    have hunion := hcondition.union hno (⟨.question, question⟩ :: (yes.tokens ++ [⟨.colon, colon⟩]))
    simp only [List.cons_append, List.append_assoc, List.nil_append] at hunion
    exact hunion h
  | operation lhs sign _ rhs hl hr =>
    intro h
    exact (hl (inOrder_of_part (List.prefix_append ..).isInfix h)).union (hr (inOrder_of_part ⟨lhs.tokens ++ [sign], [], by simp⟩ h)) [sign] h
  | raised base caret exponent hb hx =>
    intro h
    exact (hb (inOrder_of_part (List.prefix_append ..).isInfix h)).union
      (hx (inOrder_of_part ⟨base.tokens ++ [⟨.caret, caret⟩], [], by simp⟩ h)) [⟨.caret, caret⟩] h
  | signed sign _ e he =>
    intro h
    exact (covers_singleton sign).union (he (inOrder_of_part (List.suffix_cons ..).isInfix h)) [] h
  | indexed target opening at_ closing ht _ =>
    intro h
    exact (ht (inOrder_of_part (List.prefix_append ..).isInfix h)).union (covers_singleton ⟨.rightBracket, closing⟩)
      (⟨.leftBracket, opening⟩ :: at_.tokens) h
  | member target dot sigil word span ht =>
    intro h
    exact (ht (inOrder_of_part (List.prefix_append ..).isInfix h)).union (covers_singleton ⟨.name sigil word, span⟩) [⟨.dot, dot⟩] h
  | literal token denotes =>
    intro _
    obtain ⟨t, s⟩ := token
    cases denotes <;> exact covers_singleton _
  | name sigil word span => exact fun _ => covers_singleton ⟨.name sigil word, span⟩
  | call word span opening args closing _ =>
    exact (covers_singleton ⟨.name false word, span⟩).union (covers_singleton ⟨.rightParen, closing⟩)
      (⟨.leftParen, opening⟩ :: args.tokens)
  | grouped opening e closing _ =>
    intro h
    rw [Derivation.tree, Expr.span_withSpan]
    exact (covers_singleton ⟨.leftParen, opening⟩).union (covers_singleton ⟨.rightParen, closing⟩) e.tokens h
  | list opening items closing _ =>
    exact (covers_singleton ⟨.leftBracket, opening⟩).union (covers_singleton ⟨.rightBracket, closing⟩) items.tokens
  | plain _ ih | single _ ih | unsigned _ ih | unraised _ ih | unsuffixed _ ih => exact ih
  | none | some | last | more => trivial

/-- The range of the tree of a derivation is that of its tokens. -/
theorem covers_tree {l : Level} (d : Derived l) (h : InOrder d.tokens) : Covers d.tokens d.tree.span :=
  coversTree d h

/-- A range of the tokens holds all of them. -/
theorem Covers.within {ts : Tokens} {s : Span} (h : Covers ts s) (horder : InOrder ts) {x : Spanned Token}
    (hx : x ∈ ts) : x.span.Within s.start s.stop := by
  obtain ⟨⟨t, ht, hstart⟩, u, hu, hstop⟩ := h
  constructor
  · rw [hstart]
    obtain ⟨rest, rfl⟩ := List.head?_eq_some_iff.mp ht
    rcases List.mem_cons.mp hx with rfl | hx
    · exact Nat.le_refl _
    · exact Nat.le_trans t.span.ordered ((List.pairwise_cons.mp horder).1 x hx)
  · rw [hstop]
    obtain ⟨init, rfl⟩ := List.getLast?_eq_some_iff.mp hu
    rcases List.mem_append.mp hx with hx | hx
    · exact Nat.le_trans ((List.pairwise_append.mp horder).2.2 x hx u List.mem_cons_self) u.span.ordered
    · rw [List.mem_singleton.mp hx]

/-- Some of the tokens cover a part of the range. -/
theorem Covers.of_part {a ts : Tokens} {s s' : Span} (h : Covers a s) (h' : Covers ts s') (ha : a <:+: ts)
    (horder : InOrder ts) : s.Within s'.start s'.stop := by
  obtain ⟨⟨t, ht, hstart⟩, u, hu, hstop⟩ := h
  refine ⟨?_, ?_⟩
  · rw [hstart]
    exact (h'.within horder (ha.subset (List.mem_of_head? ht))).start
  · rw [hstop]
    exact (h'.within horder (ha.subset (List.mem_of_getLast? hu))).stop

/-! ## Moving trees -/

/-- The derivation with all its ranges replaced. -/
@[simp] def Derivation.respan (f : Span → Span) {p : Phrase} : Derivation p → Derivation p
  | .choice c question yes colon no => .choice (c.respan f) (f question) (yes.respan f) (f colon) (no.respan f)
  | .plain e => .plain (e.respan f)
  | .operation lhs sign joins rhs => .operation (lhs.respan f) ⟨sign.value, f sign.span⟩ joins (rhs.respan f)
  | .single e => .single (e.respan f)
  | .signed sign signs e => .signed ⟨sign.value, f sign.span⟩ signs (e.respan f)
  | .unsigned e => .unsigned (e.respan f)
  | .raised base caret exponent => .raised (base.respan f) (f caret) (exponent.respan f)
  | .unraised e => .unraised (e.respan f)
  | .indexed target opening at_ closing => .indexed (target.respan f) (f opening) (at_.respan f) (f closing)
  | .member target dot sigil word span => .member (target.respan f) (f dot) sigil word (f span)
  | .unsuffixed e => .unsuffixed (e.respan f)
  | .literal token denotes => .literal ⟨token.value, f token.span⟩ denotes
  | .name sigil word span => .name sigil word (f span)
  | .call word span opening args closing => .call word (f span) (f opening) (args.respan f) (f closing)
  | .grouped opening e closing => .grouped (f opening) (e.respan f) (f closing)
  | .list opening items closing => .list (f opening) (items.respan f) (f closing)
  | .none => .none
  | .some items => .some (items.respan f)
  | .last e => .last (e.respan f)
  | .more e comma items => .more (e.respan f) (f comma) (items.respan f)

theorem tokens_respan (f : Span → Span) {p : Phrase} (d : Derivation p) :
    (d.respan f).tokens = d.tokens.map fun t => ⟨t.value, f t.span⟩ := by
  induction d <;> simp_all

/-- What a phrase was read as, with all its ranges replaced. -/
@[simp] def Phrase.respan (f : Span → Span) : (p : Phrase) → p.Tree → p.Tree
  | .expr _, e => e.respan f
  | .arguments, es | .items, es => Expr.respanAll f es

theorem respan_valueOf (f : Span → Span) {t : Token} {value : Term} (h : Denotes t value) (s : Span) :
    (valueOf t s).respan f = valueOf t (f s) := by
  cases h <;> rfl

theorem respan_ofBinary {f : Span → Span} (hf : ∀ a b : Span, f (a.union b) = (f a).union (f b)) (op : BinaryOp)
    (a b : Expr) : (Expr.ofBinary op a b).respan f = .ofBinary op (a.respan f) (b.respan f) := by
  simp [Expr.ofBinary, hf, Expr.span_respan]

/-- Trees are made of the ranges of their tokens by taking unions alone. -/
theorem tree_respan {f : Span → Span} (hf : ∀ a b : Span, f (a.union b) = (f a).union (f b)) {p : Phrase}
    (d : Derivation p) : p.respan f d.tree = (d.respan f).tree := by
  induction d with
  | literal token denotes => exact respan_valueOf f denotes token.span
  | operation _ _ _ _ hl hr => simp_all [respan_ofBinary hf]
  | raised _ _ _ hb hx => simp_all [respan_ofBinary hf]
  | _ => simp_all [← Expr.span_respan f]

theorem shift_union (n : Nat) (a b : Span) : (a.union b).shift n = (a.shift n).union (b.shift n) := by
  simp only [Span.union, Span.shift, Span.mk.injEq]
  omega

/-- Tokens that were moved are read as what they were before, moved with them. -/
theorem exists_shifted (d : Derived .conditional) {n : Nat} {ts : Tokens} (h : d.tokens = ts.map (Spanned.shift n)) :
    ∃ d' : Derived .conditional, d'.tokens = ts ∧ d.tree = d'.tree.shift n := by
  let back (s : Span) : Span := ⟨s.start - n, s.stop - n, by have := s.ordered; omega⟩
  have hback (s : Span) : back (s.shift n) = s := by simp [back, Span.shift]
  have htokens : (d.respan back).tokens = ts := by
    rw [tokens_respan, h, List.map_map]
    simp [Function.comp_def, Spanned.shift, hback]
  refine ⟨d.respan back, htokens, ?_⟩
  have hagain : (d.respan back).respan (Span.shift n) = d := unambiguous (by
    rw [tokens_respan, htokens, h]
    rfl)
  exact (congrArg Derivation.tree hagain).symm.trans (tree_respan (shift_union n) (d.respan back)).symm

end Grammar

/-! ## Nodes alone -/

namespace Expr

open Grammar

/-- A text is read as the tree of a derivation that its tokens spell. -/
theorem read_eq_ok_iff {offset : Nat} {text : List Char} {e : Expr} :
    read offset text = .ok e ↔ ∃ d : Derived .conditional, Lexer.run ⟨offset, text⟩ = (d.tokens, []) ∧ d.tree = e := by
  constructor
  · intro h
    obtain ⟨ts, htokens, h⟩ := exists_of_bind_eq_ok h
    split at h
    · rename_i he
      cases h
      obtain ⟨d, rfl, htree⟩ := expression_eq_ok_iff_tree.mp he
      exact ⟨d, Lexer.tokenize_eq_ok_iff.mp htokens, htree⟩
    · cases h
  · rintro ⟨d, hrun, rfl⟩
    rw [read_of_tokenize (Lexer.tokenize_eq_ok_iff.mpr hrun), expression_eq_ok_iff_tree.mpr ⟨d, rfl, rfl⟩]

/-- A text that is read as an expression is read as the same expression wherever it stands. -/
theorem exists_of_read_eq_ok {offset : Nat} {text : List Char} {e : Expr} (h : read offset text = .ok e) :
    ∃ alone : Expr, e = alone.shift offset ∧ ∀ o, read o text = .ok (alone.shift o) := by
  obtain ⟨d, hrun, rfl⟩ := read_eq_ok_iff.mp h
  obtain ⟨placed, hplaced, hagain⟩ := Lexer.exists_of_run_eq hrun
  obtain ⟨alone, rfl, htree⟩ := exists_shifted d hplaced
  refine ⟨alone.tree, htree, fun o => read_eq_ok_iff.mpr ?_⟩
  exact ⟨alone.respan (Span.shift o), by rw [hagain, tokens_respan]; rfl, (tree_respan (shift_union o) alone).symm⟩

/-- At the range of every node stands a text that is read as this node alone. -/
theorem read_part {offset : Nat} {text : List Char} {e node : Expr} (h : read offset text = .ok e) (hnode : e.Node node) :
    ∃ part, Place.Shows ⟨offset, text⟩ node.span part ∧ Text.Inked part ∧ read node.span.start part = .ok node := by
  obtain ⟨d, hrun, rfl⟩ := read_eq_ok_iff.mp h
  obtain ⟨inner, rfl, before, behind, hinner⟩ := readFrom_of_node hnode
  obtain ⟨⟨t, ht, hstart⟩, u, hu, hstop⟩ :=
    covers_tree inner (inOrder_of_part ⟨before, behind, hinner⟩ (Lexer.inOrder_of_run hrun))
  obtain ⟨middle, hmiddle⟩ := List.head?_eq_some_iff.mp ht
  rw [← hinner, List.append_assoc, hmiddle] at hrun
  obtain ⟨front, part, rest, hrest, hinked, hfront, hlast, hagain⟩ := Lexer.run_part hrun
  have hu' : (t :: middle).getLast (List.cons_ne_nil _ _) = u := by
    rw [hmiddle] at hu
    exact Option.some.inj ((List.getLast?_eq_some_getLast (List.cons_ne_nil _ _)).symm.trans hu)
  rw [hu', ← hstop, ← hstart] at hlast
  rw [← hstart] at hfront hagain
  exact ⟨part, ⟨front, rest, hrest, hfront, hlast⟩, hinked, read_eq_ok_iff.mpr ⟨inner, by rw [hagain, hmiddle], rfl⟩⟩

theorem read_leaf {offset : Nat} {text : List Char} {e leaf : Expr} (h : read offset text = .ok e)
    (hleaf : leaf ∈ e.leaves) : ∃ part, Place.Shows ⟨offset, text⟩ leaf.span part ∧ Text.Inked part ∧
      read leaf.span.start part = .ok leaf :=
  read_part h (node_of_mem_leaves hleaf)

/-- The range of a node holds those of its children. -/
theorem children_within {offset : Nat} {text : List Char} {e node child : Expr} (h : read offset text = .ok e)
    (hnode : e.Node node) (hchild : child ∈ node.children) : child.span.Within node.span.start node.span.stop := by
  obtain ⟨d, hrun, rfl⟩ := read_eq_ok_iff.mp h
  obtain ⟨parent, rfl, hparent⟩ := readFrom_of_node hnode
  obtain ⟨inner, rfl, hinner⟩ := readFrom_part parent child hchild
  have horder : Lexer.InOrder parent.tokens := inOrder_of_part hparent (Lexer.inOrder_of_run hrun)
  exact (covers_tree inner (inOrder_of_part hinner horder)).of_part (covers_tree parent horder) hinner horder

/-- A parenthesis is a token wherever it stands. -/
theorem run_parenthesis {c : Char} {t : Token} (hc : (c, t) = ('(', .leftParen) ∨ (c, t) = (')', .rightParen)) (o : Nat)
    (more : List Char) : Lexer.run ⟨o, c :: more⟩ =
      (⟨t, .sized o 1⟩ :: (Lexer.run ⟨o + 1, more⟩).1, (Lexer.run ⟨o + 1, more⟩).2) := by
  have hscan : Lexer.scan ⟨o, c :: more⟩ = .token t ⟨o + 1, more⟩ := by
    rcases hc with hc | hc <;> cases hc <;>
      rw [Lexer.scan_plain ⟨by simp, by simp⟩, Lexer.spanNumber_of_not rfl (by decide)] <;> rfl
  have hskip : (⟨o, c :: more⟩ : Place).skipWhile Lexer.isSpace = ⟨o, c :: more⟩ := by
    rcases hc with hc | hc <;> cases hc <;> rfl
  have hspan : Span.between o (o + 1) = .sized o 1 := by
    simp only [Span.between, Span.sized, Span.mk.injEq]
    omega
  rw [Lexer.run_of_token hskip (List.cons_ne_nil _ _) hscan, hspan]

/-- Parentheses around a text are a part of the range of what it is read as. -/
theorem read_parentheses {text : List Char} {alone : Expr} (h : ∀ o, read o text = .ok (alone.shift o)) (o : Nat) :
    read o ('(' :: (text ++ [')'])) = .ok ((alone.shift (o + 1)).withSpan (.sized o (1 + width text + 1))) := by
  obtain ⟨d, hrun, htree⟩ := read_eq_ok_iff.mp (h (o + 1))
  have hclose := run_parenthesis (.inr rfl) (o + 1 + width text) []
  have hbehind := Lexer.run_append [')'] (fun c hc => by cases hc; rfl) hrun
  rw [show (⟨o + 1, text⟩ : Place).stop = o + 1 + width text from rfl, hclose, Lexer.run_nil] at hbehind
  refine read_eq_ok_iff.mpr ⟨widen (.grouped (.sized o 1) d (.sized (o + 1 + width text) 1)), ?_, ?_⟩
  · rw [run_parenthesis (.inl rfl), hbehind]
    simp
  · have hunion : (Span.sized o 1).union (.sized (o + 1 + width text) 1) = .sized o (1 + width text + 1) := by
      simp only [Span.union, Span.sized, Span.mk.injEq]
      omega
    rw [tree_widen, Derivation.tree, htree, hunion]

/-- Every node of an expression was read from its range of the text, which holds those of its
    children: there stands a text that, read anywhere, is the node at that place, and in
    parentheses is the node over them. -/
theorem read_node {offset : Nat} {text : List Char} {e node : Expr} (h : read offset text = .ok e) (hnode : e.Node node) :
    node.span.Within offset (offset + width text) ∧
      (∀ child ∈ node.children, child.span.Within node.span.start node.span.stop) ∧
      ∃ (part : List Char) (alone : Expr), Place.Shows ⟨offset, text⟩ node.span part ∧ node = alone.shift node.span.start ∧
        (∀ o, read o part = .ok (alone.shift o)) ∧
        ∀ o, read o ('(' :: (part ++ [')'])) = .ok ((alone.shift (o + 1)).withSpan (.sized o (1 + width part + 1))) := by
  obtain ⟨part, hshows, -, hread⟩ := read_part h hnode
  obtain ⟨alone, hnode', hanywhere⟩ := exists_of_read_eq_ok hread
  refine ⟨?_, fun child hchild => children_within h hnode hchild, part, alone, hshows, hnode', hanywhere,
    read_parentheses hanywhere⟩
  obtain ⟨before, behind, hrest, hstart, hstop⟩ := hshows
  obtain rfl : text = before ++ (part ++ behind) := hrest
  constructor
  · exact hstart ▸ Nat.le_add_right offset _
  · rw [hstop, hstart, Text.width_append, Text.width_append]
    show offset + width before + width part ≤ _
    omega

/-- The right operand of `a + (b)` is read from `(b)`. -/
theorem read_node_rightOperand : ∃ e node : Expr, read 7 "a + (b)".toList = .ok e ∧ e.Node node ∧
    ∃ part, Place.Shows ⟨7, "a + (b)".toList⟩ node.span part ∧ read node.span.start part = .ok node := by
  have h : read 7 "a + (b)".toList =
      .ok (.binary .add (.variable "a" (.sized 7 1)) (.variable "b" (.sized 11 3)) (.sized 7 7)) := by cbv
  have hnode : (Expr.binary .add (.variable "a" (.sized 7 1)) (.variable "b" (.sized 11 3)) (.sized 7 7)).Node
      (.variable "b" (.sized 11 3)) := .child .root (List.mem_cons_of_mem _ List.mem_cons_self)
  obtain ⟨-, -, part, alone, hshows, halone, hread, -⟩ := read_node h hnode
  exact ⟨_, _, h, hnode, part, hshows, by rw [hread, ← halone]⟩

end Expr

end Sketchwork
