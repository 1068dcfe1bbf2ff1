/-
  Sketchwork.Proofs.Expr.Unambiguity — tokens have at most one derivation.

  Two derivations of a phrase that spell the same tokens, up to a place where the phrase
  cannot go on, are the same (`unambiguous`). Levels that group to the left are compared from
  the left: such a derivation is an expression of the tighter level and a list of links, one
  for every operator, index or member name (`Chain`), and links begin with tokens that no
  tighter level goes on with.
-/
import Sketchwork.Proofs.Expr.Completeness

namespace Sketchwork.Grammar

open Sketchwork.Parser (Tier)

/-! ## Chains -/

/-- Tokens spell at most one thing before tokens that do not go on with rank `rank`. -/
def Determined {α : Type} (spelling : α → Tokens) (rank : Nat) (x : α) : Prop :=
  ∀ y r r', spelling x ++ r = spelling y ++ r' → Follows rank r → Follows rank r' → x = y ∧ r = r'

/-- The tokens of links, one behind the other. -/
def chained {β : Type} (spelling : β → Tokens) (links : List β) : Tokens :=
  links.flatMap spelling

section

variable {α β : Type} {first : α → Tokens} {link : β → Tokens} {rank : Nat}

theorem follows_chained (begins : ∀ l, ∃ t ts, link l = t :: ts ∧ reach t.value = rank + 1) (ls : List β) {r : Tokens}
    (hr : Follows (rank + 1) r) : Follows rank (chained link ls ++ r) := by
  cases ls with
  | nil => exact hr.mono (Nat.le_succ rank)
  | cons l ls =>
    obtain ⟨t, ts, e, ht⟩ := begins l
    simp only [chained, List.flatMap_cons, e, List.cons_append, follows_cons, ht]
    omega

theorem not_follows_chained_cons (begins : ∀ l, ∃ t ts, link l = t :: ts ∧ reach t.value = rank + 1) (l : β)
    (ls : List β) (r : Tokens) : ¬ Follows (rank + 1) (chained link (l :: ls) ++ r) := by
  obtain ⟨t, ts, e, ht⟩ := begins l
  simp [chained, e, ht]

/-- The links behind an expression are determined when each of them is. -/
theorem links_determined (begins : ∀ l, ∃ t ts, link l = t :: ts ∧ reach t.value = rank + 1) {ls ls' : List β}
    {r r' : Tokens} (hl : ∀ l ∈ ls, Determined link rank l) (h : chained link ls ++ r = chained link ls' ++ r')
    (hr : Follows (rank + 1) r) (hr' : Follows (rank + 1) r') : ls = ls' ∧ r = r' := by
  induction ls generalizing ls' with
  | nil =>
    cases ls' with
    | nil => exact ⟨rfl, h⟩
    | cons l' ls' =>
      refine absurd hr ?_
      rw [show r = chained link (l' :: ls') ++ r' from h]
      exact not_follows_chained_cons begins l' ls' r'
  | cons l ls ih =>
    cases ls' with
    | nil =>
      refine absurd hr' ?_
      rw [show r' = chained link (l :: ls) ++ r from h.symm]
      exact not_follows_chained_cons begins l ls r
    | cons l' ls' =>
      simp only [chained, List.flatMap_cons, List.append_assoc] at h
      obtain ⟨rfl, hs⟩ := hl l (by simp) l' _ _ h (follows_chained begins ls hr) (follows_chained begins ls' hr')
      obtain ⟨rfl, rfl⟩ := ih (fun l hm => hl l (by simp [hm])) hs
      exact ⟨rfl, rfl⟩

theorem chain_determined (begins : ∀ l, ∃ t ts, link l = t :: ts ∧ reach t.value = rank + 1) {e e' : α}
    {ls ls' : List β} {r r' : Tokens} (he : Determined first rank e) (hl : ∀ l ∈ ls, Determined link rank l)
    (h : first e ++ chained link ls ++ r = first e' ++ chained link ls' ++ r') (hr : Follows (rank + 1) r)
    (hr' : Follows (rank + 1) r') : e = e' ∧ ls = ls' ∧ r = r' := by
  rw [List.append_assoc, List.append_assoc] at h
  obtain ⟨rfl, hs⟩ := he e' _ _ h (follows_chained begins ls hr) (follows_chained begins ls' hr')
  obtain ⟨rfl, rfl⟩ := links_determined begins hl hs hr hr'
  exact ⟨rfl, rfl, rfl⟩

end

/-! ## The links of a level of operators -/

/-- An operator with its right operand. -/
structure Operation (t : Tier) where
  sign : Spanned Token
  op : BinaryOp
  joins : Joins t sign.value op
  rhs : Derived (operand t)

namespace Operation

def tokens {t : Tier} (l : Operation t) : Tokens :=
  l.sign :: l.rhs.tokens

def after {t : Tier} (lhs : Derived (.tier t)) (l : Operation t) : Derived (.tier t) :=
  .operation lhs l.sign l.joins l.rhs

theorem tokens_foldl {t : Tier} (ls : List (Operation t)) (d : Derived (.tier t)) :
    (ls.foldl after d).tokens = d.tokens ++ chained tokens ls := by
  induction ls generalizing d with
  | nil => simp [chained]
  | cons l ls ih => simp [ih, chained, after, tokens]

theorem begins {t : Tier} (l : Operation t) :
    ∃ s ts, tokens l = s :: ts ∧ reach s.value = (operand t).rank + 1 :=
  ⟨l.sign, l.rhs.tokens, rfl, by rw [l.joins.reach_eq, rank_operand]⟩

theorem determined {t : Tier} {l : Operation t} (h : Determined Derivation.tokens (operand t).rank l.rhs) :
    Determined tokens (operand t).rank l := by
  obtain ⟨sign, op, joins, rhs⟩ := l
  intro ⟨sign', op', joins', rhs'⟩ r r' e hr hr'
  simp only [tokens, List.cons_append, List.cons.injEq] at e
  obtain ⟨rfl, e⟩ := e
  obtain ⟨rfl, rfl⟩ := h rhs' r r' e hr hr'
  obtain rfl := joins.unique joins'
  exact ⟨rfl, rfl⟩

end Operation

/-! ## The links of a suffixed expression -/

inductive Suffix where
  | index (opening : Span) (at_ : Derived .conditional) (closing : Span)
  | member (dot : Span) (sigil : Bool) (word : String) (span : Span)

namespace Suffix

def tokens : Suffix → Tokens
  | index opening at_ closing => ⟨.leftBracket, opening⟩ :: (at_.tokens ++ [⟨.rightBracket, closing⟩])
  | member dot sigil word span => [⟨.dot, dot⟩, ⟨.name sigil word, span⟩]

def after (target : Derived .suffixed) : Suffix → Derived .suffixed
  | index opening at_ closing => .indexed target opening at_ closing
  | member dot sigil word span => .member target dot sigil word span

theorem tokens_foldl (ls : List Suffix) (d : Derived .suffixed) :
    (ls.foldl after d).tokens = d.tokens ++ chained tokens ls := by
  induction ls generalizing d with
  | nil => simp [chained]
  | cons l ls ih => cases l <;> simp [ih, chained, after, tokens]

theorem begins (l : Suffix) : ∃ s ts, tokens l = s :: ts ∧ reach s.value = Level.primary.rank + 1 := by
  cases l with
  | index => exact ⟨_, _, rfl, rfl⟩
  | member => exact ⟨_, _, rfl, rfl⟩

theorem determined_index {s s' : Span} {i : Derived .conditional}
    (h : Determined Derivation.tokens Level.conditional.rank i) :
    Determined tokens Level.primary.rank (.index s i s') := by
  intro l r r' e _ _
  cases l with
  | index s₁ i₁ s₁' =>
    simp only [tokens, List.cons_append, List.append_assoc, List.nil_append, List.cons.injEq, Spanned.mk.injEq,
      true_and] at e
    obtain ⟨rfl, e⟩ := e
    obtain ⟨rfl, hs⟩ := h i₁ _ _ e (.cons (by decide) _) (.cons (by decide) _)
    cases hs
    exact ⟨rfl, rfl⟩
  | member => simp [tokens] at e

theorem determined_member {s s' : Span} {sigil : Bool} {word : String} :
    Determined tokens Level.primary.rank (.member s sigil word s') := by
  intro l r r' e _ _
  cases l with
  | index => simp [tokens] at e
  | member =>
    cases e
    exact ⟨rfl, rfl⟩

end Suffix

/-! ## Derivations as chains -/

/-- What the induction on derivations carries: a derivation that nests to the left is a chain
    of determined links, any other one is determined itself. -/
def Settled : (p : Phrase) → Derivation p → Prop
  | .expr (.tier t), d => ∃ e, ∃ ls : List (Operation t), d = ls.foldl Operation.after (.single e) ∧
      Determined Derivation.tokens (operand t).rank e ∧ ∀ l ∈ ls, Determined Operation.tokens (operand t).rank l
  | .expr .suffixed, d => ∃ e, ∃ ls : List Suffix, d = ls.foldl Suffix.after (.unsuffixed e) ∧
      Determined Derivation.tokens Level.primary.rank e ∧ ∀ l ∈ ls, Determined Suffix.tokens Level.primary.rank l
  | .expr l, d => Determined Derivation.tokens l.rank d
  | .items, d => Determined Derivation.tokens 10 d
  | .arguments, d => ∀ d' : Derivation .arguments, ∀ r r', d.tokens ++ r = d'.tokens ++ r' → Follows 10 r →
      Follows 10 r' → Parser.opens r = false → Parser.opens r' = false → d = d' ∧ r = r'

/-- A derivation that nests to the left as an expression of the tighter level with links. -/
def IsChain : (p : Phrase) → Derivation p → Prop
  | .expr (.tier t), d => ∃ e, ∃ ls : List (Operation t), d = ls.foldl Operation.after (.single e)
  | .expr .suffixed, d => ∃ e, ∃ ls : List Suffix, d = ls.foldl Suffix.after (.unsuffixed e)
  | _, _ => True

theorem isChain {p : Phrase} (d : Derivation p) : IsChain p d := by
  induction d with
  | single e _ => exact ⟨e, [], rfl⟩
  | operation lhs sign joins rhs ih _ =>
    obtain ⟨e, ls, rfl⟩ := ih
    exact ⟨e, ls ++ [⟨sign, _, joins, rhs⟩], by rw [List.foldl_append]; rfl⟩
  | unsuffixed e _ => exact ⟨e, [], rfl⟩
  | indexed target opening at_ closing ih _ =>
    obtain ⟨e, ls, rfl⟩ := ih
    exact ⟨e, ls ++ [.index opening at_ closing], by rw [List.foldl_append]; rfl⟩
  | member target dot sigil word span ih =>
    obtain ⟨e, ls, rfl⟩ := ih
    exact ⟨e, ls ++ [.member dot sigil word span], by rw [List.foldl_append]; rfl⟩
  | _ => trivial

theorem Settled.determined {l : Level} {d : Derived l} (h : Settled (.expr l) d) :
    Determined Derivation.tokens l.rank d := by
  cases l with
  | tier t =>
    obtain ⟨e, ls, rfl, he, hl⟩ := h
    intro d' r r' heq hr hr'
    obtain ⟨e', ls', rfl⟩ := isChain d'
    rw [Operation.tokens_foldl, Operation.tokens_foldl] at heq
    rw [← rank_operand] at hr hr'
    obtain ⟨rfl, rfl, rfl⟩ := chain_determined Operation.begins he hl heq hr hr'
    exact ⟨rfl, rfl⟩
  | suffixed =>
    obtain ⟨e, ls, rfl, he, hl⟩ := h
    intro d' r r' heq hr hr'
    obtain ⟨e', ls', rfl⟩ := isChain d'
    rw [Suffix.tokens_foldl, Suffix.tokens_foldl] at heq
    obtain ⟨rfl, rfl, rfl⟩ := chain_determined Suffix.begins he hl heq hr hr'
    exact ⟨rfl, rfl⟩
  | conditional | unary | power | primary => exact h

/-! ## One case per rule -/

theorem choice_determined {c : Derived (.tier .or)} {q k : Span} {yes no : Derived .conditional}
    (hc : Determined Derivation.tokens (Level.tier .or).rank c)
    (hy : Determined Derivation.tokens Level.conditional.rank yes)
    (hn : Determined Derivation.tokens Level.conditional.rank no) :
    Determined Derivation.tokens Level.conditional.rank (.choice c q yes k no : Derived .conditional) := by
  intro d' r r' h hr hr'
  cases d' with
  | choice c' q' yes' k' no' =>
    simp only [Derivation.tokens, List.append_assoc, List.cons_append] at h
    obtain ⟨rfl, h₁⟩ := hc c' _ _ h (.cons (by decide) _) (.cons (by decide) _)
    obtain ⟨rfl, h₂⟩ : q = q' ∧ _ := by simpa using h₁
    obtain ⟨rfl, h₃⟩ := hy yes' _ _ h₂ (.cons (by decide) _) (.cons (by decide) _)
    obtain ⟨rfl, h₄⟩ : k = k' ∧ _ := by simpa using h₃
    obtain ⟨rfl, rfl⟩ := hn no' _ _ h₄ hr hr'
    exact ⟨rfl, rfl⟩
  | plain e =>
    simp only [Derivation.tokens, List.append_assoc, List.cons_append] at h
    obtain ⟨rfl, rfl⟩ := hc e _ _ h (.cons (by decide) _) (hr'.mono (by decide))
    exact absurd hr'.lt (by decide)

theorem plain_determined {c : Derived (.tier .or)} (hc : Determined Derivation.tokens (Level.tier .or).rank c) :
    Determined Derivation.tokens Level.conditional.rank (.plain c : Derived .conditional) := by
  intro d' r r' h hr hr'
  cases d' with
  | choice c' q' yes' k' no' =>
    simp only [Derivation.tokens, List.append_assoc, List.cons_append] at h
    obtain ⟨rfl, rfl⟩ := hc c' _ _ h (hr.mono (by decide)) (.cons (by decide) _)
    exact absurd hr.lt (by decide)
  | plain e =>
    obtain ⟨rfl, rfl⟩ := hc e _ _ h (hr.mono (by decide)) (hr'.mono (by decide))
    exact ⟨rfl, rfl⟩

/-- A sign and an expression that begins with none spell different tokens. -/
theorem signed_ne_unsigned {sign : Spanned Token} {op : UnaryOp} (signs : Signs sign.value op) (e : Derived .power)
    {ts r : Tokens} : sign :: ts ≠ e.tokens ++ r := by
  intro h
  obtain ⟨t, ts', ht, hs⟩ := exists_bare_head e rfl
  rw [ht, List.cons_append, List.cons.injEq] at h
  rw [← h.1, sign?_of_signs signs] at hs
  cases hs

theorem signed_determined {sign : Spanned Token} {op : UnaryOp} {signs : Signs sign.value op} {e : Derived .unary}
    (he : Determined Derivation.tokens Level.unary.rank e) :
    Determined Derivation.tokens Level.unary.rank (.signed sign signs e : Derived .unary) := by
  intro d' r r' h hr hr'
  cases d' with
  | signed sign' signs' e' =>
    simp only [Derivation.tokens, List.cons_append, List.cons.injEq] at h
    obtain ⟨rfl, h₁⟩ := h
    obtain rfl := signs.unique signs'
    obtain ⟨rfl, rfl⟩ := he e' _ _ h₁ hr hr'
    exact ⟨rfl, rfl⟩
  | unsigned e' => exact absurd h (signed_ne_unsigned signs e')

theorem unsigned_determined {e : Derived .power} (he : Determined Derivation.tokens Level.power.rank e) :
    Determined Derivation.tokens Level.unary.rank (.unsigned e : Derived .unary) := by
  intro d' r r' h hr hr'
  cases d' with
  | signed sign' signs' e' => exact absurd h.symm (signed_ne_unsigned signs' e)
  | unsigned e' =>
    obtain ⟨rfl, rfl⟩ := he e' _ _ h hr hr'
    exact ⟨rfl, rfl⟩

theorem raised_determined {base : Derived .suffixed} {s : Span} {x : Derived .unary}
    (hb : Determined Derivation.tokens Level.suffixed.rank base)
    (hx : Determined Derivation.tokens Level.unary.rank x) :
    Determined Derivation.tokens Level.power.rank (.raised base s x : Derived .power) := by
  intro d' r r' h hr hr'
  cases d' with
  | raised base' s' x' =>
    simp only [Derivation.tokens, List.append_assoc, List.cons_append] at h
    obtain ⟨rfl, h₁⟩ := hb base' _ _ h (.cons (by decide) _) (.cons (by decide) _)
    obtain ⟨rfl, h₂⟩ : s = s' ∧ _ := by simpa using h₁
    obtain ⟨rfl, rfl⟩ := hx x' _ _ h₂ hr hr'
    exact ⟨rfl, rfl⟩
  | unraised e =>
    simp only [Derivation.tokens, List.append_assoc, List.cons_append] at h
    obtain ⟨rfl, rfl⟩ := hb e _ _ h (.cons (by decide) _) (hr'.mono (by decide))
    exact absurd hr'.lt (by decide)

theorem unraised_determined {base : Derived .suffixed} (hb : Determined Derivation.tokens Level.suffixed.rank base) :
    Determined Derivation.tokens Level.power.rank (.unraised base : Derived .power) := by
  intro d' r r' h hr hr'
  cases d' with
  | raised base' s' x' =>
    simp only [Derivation.tokens, List.append_assoc, List.cons_append] at h
    obtain ⟨rfl, rfl⟩ := hb base' _ _ h (hr.mono (by decide)) (.cons (by decide) _)
    exact absurd hr.lt (by decide)
  | unraised e =>
    obtain ⟨rfl, rfl⟩ := hb e _ _ h (hr.mono (by decide)) (hr'.mono (by decide))
    exact ⟨rfl, rfl⟩

theorem literal_determined {token : Spanned Token} {value : Term} {denotes : Denotes token.value value} :
    Determined Derivation.tokens Level.primary.rank (.literal token denotes : Derived .primary) := by
  intro d' r r' h hr hr'
  cases d' with
  | literal token' denotes' =>
    cases h
    obtain rfl := denotes.unique denotes'
    exact ⟨rfl, rfl⟩
  | name | call | grouped | list =>
    obtain ⟨t, s⟩ := token
    cases denotes <;> cases h

theorem name_determined {sigil : Bool} {word : String} {s : Span} :
    Determined Derivation.tokens Level.primary.rank (.name sigil word s : Derived .primary) := by
  intro d' r r' h hr hr'
  cases d' with
  | literal token' denotes' =>
    obtain ⟨t, s'⟩ := token'
    cases denotes' <;> cases h
  | name =>
    cases h
    exact ⟨rfl, rfl⟩
  | call =>
    cases h
    exact absurd hr.lt (by decide)
  | grouped | list => cases h

/-- Bracketed items are determined by the bracket behind them. -/
theorem bracketed_determined {args args' : Derivation .arguments} {t : Token} {s s' : Span} {r r' : Tokens}
    (ht : t = .rightParen ∨ t = .rightBracket) (ha : Settled .arguments args)
    (h : args.tokens ++ ⟨t, s⟩ :: r = args'.tokens ++ ⟨t, s'⟩ :: r') : args = args' ∧ s = s' ∧ r = r' := by
  have hf : ∀ s r, Follows 10 (⟨t, s⟩ :: r) ∧ Parser.opens (⟨t, s⟩ :: r) = false := by
    intro s r
    rcases ht with rfl | rfl <;> exact ⟨.cons (by decide) _, rfl⟩
  obtain ⟨rfl, e⟩ := ha args' _ _ h (hf s r).1 (hf s' r').1 (hf s r).2 (hf s' r').2
  cases e
  exact ⟨rfl, rfl, rfl⟩

theorem call_determined {word : String} {s s' s'' : Span} {args : Derivation .arguments}
    (ha : Settled .arguments args) :
    Determined Derivation.tokens Level.primary.rank (.call word s s' args s'' : Derived .primary) := by
  intro d' r r' h hr hr'
  cases d' with
  | literal token' denotes' =>
    obtain ⟨t, s'⟩ := token'
    cases denotes' <;> cases h
  | name =>
    cases h
    exact absurd hr'.lt (by decide)
  | call word' t t' args' t'' =>
    simp only [Derivation.tokens, List.cons_append, List.append_assoc, List.nil_append, List.cons.injEq,
      Spanned.mk.injEq, Token.name.injEq, true_and] at h
    obtain ⟨⟨rfl, rfl⟩, rfl, h₁⟩ := h
    obtain ⟨rfl, rfl, rfl⟩ := bracketed_determined (.inl rfl) ha h₁
    exact ⟨rfl, rfl⟩
  | grouped | list => cases h

theorem grouped_determined {s s' : Span} {e : Derived .conditional}
    (he : Determined Derivation.tokens Level.conditional.rank e) :
    Determined Derivation.tokens Level.primary.rank (.grouped s e s' : Derived .primary) := by
  intro d' r r' h hr hr'
  cases d' with
  | literal token' denotes' =>
    obtain ⟨t, s'⟩ := token'
    cases denotes' <;> cases h
  | grouped t e' t' =>
    simp only [Derivation.tokens, List.cons_append, List.append_assoc, List.nil_append, List.cons.injEq,
      Spanned.mk.injEq, true_and] at h
    obtain ⟨rfl, h₁⟩ := h
    obtain ⟨rfl, h₂⟩ := he e' _ _ h₁ (.cons (by decide) _) (.cons (by decide) _)
    cases h₂
    exact ⟨rfl, rfl⟩
  | name | call | list => cases h

theorem list_determined {s s' : Span} {args : Derivation .arguments} (ha : Settled .arguments args) :
    Determined Derivation.tokens Level.primary.rank (.list s args s' : Derived .primary) := by
  intro d' r r' h hr hr'
  cases d' with
  | literal token' denotes' =>
    obtain ⟨t, s'⟩ := token'
    cases denotes' <;> cases h
  | list t args' t' =>
    simp only [Derivation.tokens, List.cons_append, List.append_assoc, List.nil_append, List.cons.injEq,
      Spanned.mk.injEq, true_and] at h
    obtain ⟨rfl, h₁⟩ := h
    obtain ⟨rfl, rfl, rfl⟩ := bracketed_determined (.inr rfl) ha h₁
    exact ⟨rfl, rfl⟩
  | name | call | grouped => cases h

theorem none_settled : Settled .arguments .none := by
  intro d' r r' h _ _ ho _
  cases d' with
  | none => exact ⟨rfl, h⟩
  | some items =>
    rw [show r = items.tokens ++ r' from h, opens_append (opens_tokens items nofun)] at ho
    cases ho

theorem some_settled {items : Derivation .items} (hi : Determined Derivation.tokens 10 items) :
    Settled .arguments (.some items) := by
  intro d' r r' h hr hr' _ ho'
  cases d' with
  | none =>
    rw [show r' = items.tokens ++ r from h.symm, opens_append (opens_tokens items nofun)] at ho'
    cases ho'
  | some items' =>
    obtain ⟨rfl, rfl⟩ := hi items' _ _ h hr hr'
    exact ⟨rfl, rfl⟩

theorem last_determined {e : Derived .conditional} (he : Determined Derivation.tokens Level.conditional.rank e) :
    Determined Derivation.tokens 10 (.last e : Derivation .items) := by
  intro d' r r' h hr hr'
  cases d' with
  | last e' =>
    obtain ⟨rfl, rfl⟩ := he e' _ _ h (hr.mono (by decide)) (hr'.mono (by decide))
    exact ⟨rfl, rfl⟩
  | more e' s' items' =>
    simp only [Derivation.tokens, List.append_assoc, List.cons_append] at h
    obtain ⟨rfl, rfl⟩ := he e' _ _ h (hr.mono (by decide)) (.cons (by decide) _)
    exact absurd hr.lt (by decide)

theorem more_determined {e : Derived .conditional} {s : Span} {items : Derivation .items}
    (he : Determined Derivation.tokens Level.conditional.rank e) (hi : Determined Derivation.tokens 10 items) :
    Determined Derivation.tokens 10 (.more e s items : Derivation .items) := by
  intro d' r r' h hr hr'
  cases d' with
  | last e' =>
    simp only [Derivation.tokens, List.append_assoc, List.cons_append] at h
    obtain ⟨rfl, rfl⟩ := he e' _ _ h (.cons (by decide) _) (hr'.mono (by decide))
    exact absurd hr'.lt (by decide)
  | more e' s' items' =>
    simp only [Derivation.tokens, List.append_assoc, List.cons_append] at h
    obtain ⟨rfl, h₁⟩ := he e' _ _ h (.cons (by decide) _) (.cons (by decide) _)
    obtain ⟨rfl, h₂⟩ : s = s' ∧ _ := by simpa using h₁
    obtain ⟨rfl, rfl⟩ := hi items' _ _ h₂ hr hr'
    exact ⟨rfl, rfl⟩

/-! ## All derivations -/

theorem settled {p : Phrase} (d : Derivation p) : Settled p d := by
  induction d with
  | choice _ _ _ _ _ hc hy hn => exact choice_determined (Settled.determined hc) hy hn
  | plain _ hc => exact plain_determined (Settled.determined hc)
  | operation lhs sign joins rhs hl hr =>
    obtain ⟨e, ls, rfl, he, hls⟩ := hl
    refine ⟨e, ls ++ [⟨sign, _, joins, rhs⟩], by rw [List.foldl_append]; rfl, he, ?_⟩
    intro l hm
    rcases List.mem_append.mp hm with hm | hm
    · exact hls l hm
    · rw [List.mem_singleton.mp hm]
      exact Operation.determined (Settled.determined hr)
  | single e he => exact ⟨e, [], rfl, Settled.determined he, by simp⟩
  | signed _ _ _ he => exact signed_determined he
  | unsigned _ he => exact unsigned_determined he
  | raised _ _ _ hb hx => exact raised_determined (Settled.determined hb) hx
  | unraised _ hb => exact unraised_determined (Settled.determined hb)
  | indexed target opening at_ closing ht hi =>
    obtain ⟨e, ls, rfl, he, hls⟩ := ht
    refine ⟨e, ls ++ [.index opening at_ closing], by rw [List.foldl_append]; rfl, he, ?_⟩
    intro l hm
    rcases List.mem_append.mp hm with hm | hm
    · exact hls l hm
    · rw [List.mem_singleton.mp hm]
      exact Suffix.determined_index hi
  | member target dot sigil word span ht =>
    obtain ⟨e, ls, rfl, he, hls⟩ := ht
    refine ⟨e, ls ++ [.member dot sigil word span], by rw [List.foldl_append]; rfl, he, ?_⟩
    intro l hm
    rcases List.mem_append.mp hm with hm | hm
    · exact hls l hm
    · rw [List.mem_singleton.mp hm]
      exact Suffix.determined_member
  | unsuffixed e he => exact ⟨e, [], rfl, he, by simp⟩
  | literal => exact literal_determined
  | name => exact name_determined
  | call _ _ _ _ _ ha => exact call_determined ha
  | grouped _ _ _ he => exact grouped_determined he
  | list _ _ _ ha => exact list_determined ha
  | none => exact none_settled
  | some _ hi => exact some_settled hi
  | last _ he => exact last_determined he
  | more _ _ _ he hi => exact more_determined he hi

/-- The grammar is unambiguous. -/
theorem unambiguous {l : Level} {d d' : Derived l} (h : d.tokens = d'.tokens) : d = d' :=
  ((settled d).determined d' [] [] (by rw [h]) (follows_nil _) (follows_nil _)).1

end Sketchwork.Grammar
