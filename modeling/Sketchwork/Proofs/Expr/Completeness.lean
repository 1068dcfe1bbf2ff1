/-
  Sketchwork.Proofs.Expr.Completeness — every derivation is read.

  `Reads` says that the reader of a level takes the tokens of a derivation, stops before
  tokens that do not go on with the level, and returns the tree of the derivation. Levels
  that group to the left are read from the left while their derivations nest to the left, so
  the induction carries `Opens` for them: the reader gets as far as the end of the derivation
  and then looks for more of the same level. Both hold when 20 nested readers are left for
  every token, less the levels that are already open (`slack`).
-/
import Sketchwork.Proofs.Expr.Soundness

namespace Sketchwork.Grammar

open Sketchwork.Parser (Tier Stop)

/-! ## First tokens -/

theorem opens_append {a : Tokens} (h : Parser.opens a = true) (b : Tokens) : Parser.opens (a ++ b) = true := by
  cases a with
  | nil => cases h
  | cons t a => exact h

/-- A derivation begins with a token that an expression can begin with. -/
theorem opens_tokens {p : Phrase} (d : Derivation p) (hp : p ≠ .arguments) : Parser.opens d.tokens = true := by
  induction d with
  | choice _ _ _ _ _ ih | operation _ _ _ _ ih | raised _ _ _ ih | indexed _ _ _ _ ih | member _ _ _ _ _ ih
  | more _ _ _ ih => exact opens_append (ih nofun) _
  | plain _ ih | single _ ih | unsigned _ ih | unraised _ ih | unsuffixed _ ih | last _ ih => exact ih nofun
  | signed sign signs _ _ =>
    obtain ⟨t, s⟩ := sign
    cases signs <;> rfl
  | literal token denotes =>
    obtain ⟨t, s⟩ := token
    cases denotes <;> rfl
  | name | call | grouped | list => rfl
  | none | some => exact absurd rfl hp

theorem length_tokens_pos {l : Level} (d : Derived l) : 0 < d.tokens.length := by
  have h := opens_tokens d nofun
  cases hd : d.tokens with
  | nil => rw [hd] at h; cases h
  | cons t ts => simp

/-- The levels whose expressions begin with no sign. -/
def Phrase.isBare : Phrase → Bool
  | .expr .power | .expr .suffixed | .expr .primary => true
  | _ => false

theorem exists_bare_head {p : Phrase} (d : Derivation p) (hp : p.isBare = true) :
    ∃ t ts, d.tokens = t :: ts ∧ Parser.sign? t.value = none := by
  induction d with
  | raised _ _ _ ih | indexed _ _ _ _ ih | member _ _ _ _ _ ih =>
    obtain ⟨t, ts, e, h⟩ := ih rfl
    exact ⟨t, _, by rw [Derivation.tokens, e]; rfl, h⟩
  | unraised _ ih | unsuffixed _ ih => exact ih rfl
  | literal token denotes =>
    obtain ⟨t, s⟩ := token
    exact ⟨_, _, rfl, by cases denotes <;> rfl⟩
  | name | call | grouped | list => exact ⟨_, _, rfl, rfl⟩
  | _ => cases hp

/-! ## Tables -/

theorem operator?_of_joins {t : Tier} {token : Token} {op : BinaryOp} (h : Joins t token op) :
    t.operator? token = some op := by
  cases h <;> rfl

theorem sign?_of_signs {token : Token} {op : UnaryOp} (h : Signs token op) : Parser.sign? token = some op := by
  cases h <;> rfl

theorem operator?_eq_none {t : Tier} {token : Token} (h : (Level.tier t).rank < reach token) :
    t.operator? token = none := by
  cases ho : t.operator? token with
  | none => rfl
  | some op => have := (joins_of_operator? ho).reach_eq; omega

theorem expect_self {t : Token} (ht : Punctuation t) (expected : Expected) (s : Span) (r : Tokens) :
    Parser.expect t expected (⟨t, s⟩ :: r) = .ok (s, r) := by
  rcases ht with rfl | rfl | rfl <;> rfl

/-! ## Reading a level -/

/-- The reader of a level. -/
def read : Level → Nat → Tokens → Except Stop (Expr × Tokens)
  | .conditional, n, ts => Parser.conditional n ts
  | .tier t, n, ts => Parser.binary n t ts
  | .unary, n, ts => Parser.unary n ts
  | .power, n, ts => Parser.power n ts
  | .suffixed, n, ts => do
    let (e, ts) ← Parser.primary n ts
    Parser.suffixes n e ts
  | .primary, n, ts => Parser.primary n ts

/-- How many readers were opened, at most, since the last token was taken. -/
@[simp] def slack : Level → Nat
  | .conditional => 0
  | .tier t => 17 - 2 * (Level.tier t).rank
  | .unary => 13
  | .power => 14
  | .suffixed | .primary => 15

def Reads (l : Level) (d : Derived l) : Prop :=
  ∀ n r, Follows l.rank r → 20 * d.tokens.length ≤ n + slack l → read l n (d.tokens ++ r) = .ok (d.tree, r)

/-- The operators of a level are read up to the end of a derivation and looked for behind it. -/
def OpensTier (t : Tier) (d : Derived (.tier t)) : Prop :=
  ∀ n r, Follows (operand t).rank r → 20 * d.tokens.length ≤ n + slack (.tier t) →
    ∃ m, n ≤ m + d.tokens.length ∧ Parser.binary n t (d.tokens ++ r) = Parser.operations m t d.tree r

def OpensSuffixed (d : Derived .suffixed) : Prop :=
  ∀ n r, Follows Level.primary.rank r → 20 * d.tokens.length ≤ n + slack .suffixed →
    ∃ m, n ≤ m + d.tokens.length ∧ read .suffixed n (d.tokens ++ r) = Parser.suffixes m d.tree r

def ReadsArguments (d : Derivation .arguments) : Prop :=
  ∀ n r, Follows 10 r → Parser.opens r = false → 20 * d.tokens.length < n →
    Parser.items n (d.tokens ++ r) = .ok (d.tree, r)

def ReadsItems (d : Derivation .items) : Prop :=
  ∀ n r, Follows 10 r → 20 * d.tokens.length < n → Parser.items n (d.tokens ++ r) = .ok (d.tree, r) ∧
    ∀ comma, Parser.moreItems n (⟨.comma, comma⟩ :: (d.tokens ++ r)) = .ok (d.tree, r)

/-- What the induction on derivations carries. -/
def Opens : (p : Phrase) → Derivation p → Prop
  | .expr (.tier t), d => OpensTier t d
  | .expr .suffixed, d => OpensSuffixed d
  | .expr l, d => Reads l d
  | .arguments, d => ReadsArguments d
  | .items, d => ReadsItems d

theorem OpensTier.reads {t : Tier} {d : Derived (.tier t)} (h : OpensTier t d) : Reads (.tier t) d := by
  intro n r hr hn
  have hp := length_tokens_pos d
  obtain ⟨m, hm, he⟩ := h n r (hr.mono (by have := rank_operand t; omega)) hn
  rw [read, he]
  obtain ⟨m, rfl⟩ : ∃ m', m = m' + 1 := ⟨m - 1, by simp only [slack] at hn; omega⟩
  cases r with
  | nil => rfl
  | cons t' r => rw [Parser.operations, operator?_eq_none (by simpa using hr)]

theorem OpensSuffixed.reads {d : Derived .suffixed} (h : OpensSuffixed d) : Reads .suffixed d := by
  intro n r hr hn
  have hp := length_tokens_pos d
  obtain ⟨m, hm, he⟩ := h n r (hr.mono (by decide)) hn
  rw [he]
  obtain ⟨m, rfl⟩ : ∃ m', m = m' + 1 := ⟨m - 1, by simp only [slack] at hn; omega⟩
  unfold Parser.suffixes
  split
  · exact absurd hr.lt (by decide)
  · exact absurd hr.lt (by decide)
  · exact absurd hr.lt (by decide)
  · rfl

theorem Opens.reads {l : Level} {d : Derived l} (h : Opens (.expr l) d) : Reads l d := by
  cases l with
  | tier t => exact OpensTier.reads h
  | suffixed => exact OpensSuffixed.reads h
  | conditional | unary | power | primary => exact h

/-! ## One case per rule -/

variable {n : Nat} {r : Tokens}

theorem reads_choice {c : Derived (.tier .or)} {yes no : Derived .conditional} {q k : Span} (hc : Reads (.tier .or) c)
    (hy : Reads .conditional yes) (hn : Reads .conditional no) : Reads .conditional (.choice c q yes k no) := by
  intro n r hr hb
  simp only [Derivation.tokens, List.length_append, List.length_cons, slack] at hb
  obtain ⟨n, rfl⟩ : ∃ n', n = n' + 1 := ⟨n - 1, by omega⟩
  have hc := hc n (⟨.question, q⟩ :: (yes.tokens ++ ⟨.colon, k⟩ :: (no.tokens ++ r)))
    (.cons (by decide) _) (by omega)
  have hy := hy n (⟨.colon, k⟩ :: (no.tokens ++ r)) (.cons (by decide) _) (by omega)
  have hn := hn n r hr (by omega)
  simp only [read] at hc hy hn
  simp [read, Parser.conditional, hc, hy, expect_self (.inl rfl), hn, bind, Except.bind, pure, Except.pure]

theorem reads_plain {c : Derived (.tier .or)} (hc : Reads (.tier .or) c) : Reads .conditional (.plain c) := by
  intro n r hr hb
  have hp := length_tokens_pos c
  simp only [Derivation.tokens, slack] at hb
  obtain ⟨n, rfl⟩ : ∃ n', n = n' + 1 := ⟨n - 1, by omega⟩
  have hc := hc n r (hr.mono (by decide)) (by simp only [slack, Level.rank]; omega)
  simp only [read] at hc
  simp only [Derivation.tokens, read, Parser.conditional, hc, bind, Except.bind]
  split
  · exact absurd hr.lt (by decide)
  · rfl

/-- The operands of a level are read by the reader of the next tighter one. -/
theorem operand_eq_read (n : Nat) (t : Tier) (ts : Tokens) : Parser.operand (n + 1) t ts = read (operand t) n ts := by
  cases t <;> rfl

theorem slack_operand (t : Tier) : slack (operand t) = slack (.tier t) + 2 := by
  cases t <;> rfl

theorem slack_le (t : Tier) : slack (.tier t) ≤ 11 := by
  cases t <;> decide

/-- Reading an operand of a level. -/
theorem operand_eq {t : Tier} {d : Derived (operand t)} (hd : Reads (operand t) d)
    (hr : Follows (operand t).rank r) (hb : 20 * d.tokens.length ≤ n + slack (.tier t) + 1) :
    Parser.operand n t (d.tokens ++ r) = .ok (d.tree, r) := by
  have hp := length_tokens_pos d
  have hs := slack_le t
  obtain ⟨n, rfl⟩ : ∃ n', n = n' + 1 := ⟨n - 1, by omega⟩
  rw [operand_eq_read, hd n r hr (by rw [slack_operand]; omega)]

theorem opens_single {t : Tier} {d : Derived (operand t)} (hd : Reads (operand t) d) : OpensTier t (.single d) := by
  intro n r hr hb
  have hp := length_tokens_pos d
  have hs := slack_le t
  simp only [Derivation.tokens] at hb ⊢
  obtain ⟨n, rfl⟩ : ∃ n', n = n' + 1 := ⟨n - 1, by omega⟩
  have he := operand_eq hd hr (n := n) (by omega)
  exact ⟨n, by omega, by simp only [Parser.binary, he, bind, Except.bind, Derivation.tree]⟩

theorem opens_operation {t : Tier} {lhs : Derived (.tier t)} {sign : Spanned Token} {op : BinaryOp}
    {joins : Joins t sign.value op} {rhs : Derived (operand t)} (hl : OpensTier t lhs) (hr : Reads (operand t) rhs) :
    OpensTier t (.operation lhs sign joins rhs) := by
  intro n r hf hb
  have hs := slack_le t
  simp only [Derivation.tokens, List.length_append, List.length_cons] at hb ⊢
  have hop : Follows (operand t).rank (sign :: (rhs.tokens ++ r)) := by
    rw [follows_cons, joins.reach_eq]
    have := rank_operand t
    omega
  obtain ⟨m, hm, ha⟩ := hl n (sign :: (rhs.tokens ++ r)) hop (by omega)
  obtain ⟨m, rfl⟩ : ∃ m', m = m' + 1 := ⟨m - 1, by omega⟩
  have hb := operand_eq hr hf (n := m) (by omega)
  refine ⟨m, by omega, ?_⟩
  rw [List.append_assoc, List.cons_append, ha, Parser.operations, operator?_of_joins joins]
  simp only [hb, bind, Except.bind, Derivation.tree]

theorem reads_signed {sign : Spanned Token} {op : UnaryOp} {signs : Signs sign.value op} {d : Derived .unary}
    (hd : Reads .unary d) : Reads .unary (.signed sign signs d) := by
  intro n r hr hb
  simp only [Derivation.tokens, List.length_cons, slack] at hb
  obtain ⟨n, rfl⟩ : ∃ n', n = n' + 1 := ⟨n - 1, by omega⟩
  have he := hd n r hr (by simp only [slack]; omega)
  simp only [read] at he
  simp only [Derivation.tokens, List.cons_append, read, Parser.unary, sign?_of_signs signs, he, bind, Except.bind, pure,
    Except.pure, Derivation.tree]

theorem reads_unsigned {d : Derived .power} (hd : Reads .power d) : Reads .unary (.unsigned d) := by
  intro n r hr hb
  have hp := length_tokens_pos d
  simp only [Derivation.tokens, slack] at hb
  obtain ⟨n, rfl⟩ : ∃ n', n = n' + 1 := ⟨n - 1, by omega⟩
  have he := hd n r hr (by simp only [slack]; omega)
  obtain ⟨t, ts, ht, hs⟩ := exists_bare_head d rfl
  simp only [read] at he
  simpa only [Derivation.tokens, Derivation.tree, read, Parser.unary, ht, List.cons_append, hs] using he

theorem reads_raised {base : Derived .suffixed} {caret : Span} {x : Derived .unary} (hbase : Reads .suffixed base)
    (hx : Reads .unary x) : Reads .power (.raised base caret x) := by
  intro n r hr hb
  simp only [Derivation.tokens, List.length_append, List.length_cons, slack] at hb
  obtain ⟨n, rfl⟩ : ∃ n', n = n' + 1 := ⟨n - 1, by omega⟩
  have heb := hbase n (⟨.caret, caret⟩ :: (x.tokens ++ r)) (.cons (by decide) _)
    (by simp only [slack]; omega)
  have hex := hx n r hr (by simp only [slack]; omega)
  simp only [read] at heb hex
  obtain ⟨⟨p, ts⟩, hp, hs⟩ := exists_of_bind_eq_ok heb
  simp [read, Parser.power, hp, hs, hex, bind, Except.bind, pure, Except.pure]

theorem reads_unraised {d : Derived .suffixed} (hd : Reads .suffixed d) : Reads .power (.unraised d) := by
  intro n r hr hb
  have hp := length_tokens_pos d
  simp only [Derivation.tokens, slack] at hb
  obtain ⟨n, rfl⟩ : ∃ n', n = n' + 1 := ⟨n - 1, by omega⟩
  have he := hd n r (hr.mono (by decide)) (by simp only [slack]; omega)
  simp only [read] at he
  obtain ⟨⟨p, ts⟩, hp, hs⟩ := exists_of_bind_eq_ok he
  simp only [Derivation.tokens, read, Parser.power, hp, hs, bind, Except.bind]
  split
  · exact absurd hr.lt (by decide)
  · rfl

theorem opens_unsuffixed {d : Derived .primary} (hd : Reads .primary d) : OpensSuffixed (.unsuffixed d) := by
  intro n r hr hb
  have hp := length_tokens_pos d
  simp only [Derivation.tokens] at hb ⊢
  have he := hd n r hr hb
  simp only [read] at he
  exact ⟨n, by omega, by simp only [read, he, bind, Except.bind, Derivation.tree]⟩

theorem opens_indexed {d : Derived .suffixed} {s s' : Span} {i : Derived .conditional} (hd : OpensSuffixed d)
    (hi : Reads .conditional i) : OpensSuffixed (.indexed d s i s') := by
  intro n r hr hb
  simp only [Derivation.tokens, List.length_append, List.length_cons, List.length_nil, slack] at hb ⊢
  obtain ⟨m, hm, he⟩ := hd n (⟨.leftBracket, s⟩ :: (i.tokens ++ ⟨.rightBracket, s'⟩ :: r))
    (.cons (by decide) _) (by simp only [slack]; omega)
  obtain ⟨m, rfl⟩ : ∃ m', m = m' + 1 := ⟨m - 1, by omega⟩
  have hi := hi m (⟨.rightBracket, s'⟩ :: r) (.cons (by decide) _) (by simp only [slack]; omega)
  refine ⟨m, by omega, ?_⟩
  simp only [read] at hi
  simp [he, Parser.suffixes, hi, expect_self (.inr (.inr rfl)), bind, Except.bind]

theorem opens_member {d : Derived .suffixed} {s s' : Span} {sigil : Bool} {word : String} (hd : OpensSuffixed d) :
    OpensSuffixed (.member d s sigil word s') := by
  intro n r hr hb
  simp only [Derivation.tokens, List.length_append, List.length_cons, List.length_nil, slack] at hb ⊢
  obtain ⟨m, hm, he⟩ := hd n (⟨.dot, s⟩ :: ⟨.name sigil word, s'⟩ :: r) (.cons (by decide) _)
    (by simp only [slack]; omega)
  obtain ⟨m, rfl⟩ : ∃ m', m = m' + 1 := ⟨m - 1, by omega⟩
  refine ⟨m, by omega, ?_⟩
  simp [he, Parser.suffixes, written]

theorem reads_literal {token : Spanned Token} {value : Term} {denotes : Denotes token.value value} :
    Reads .primary (.literal token denotes) := by
  intro n r hr hb
  obtain ⟨t, s⟩ := token
  simp only [Derivation.tokens, List.length_cons, List.length_nil, slack] at hb
  obtain ⟨n, rfl⟩ : ∃ n', n = n' + 1 := ⟨n - 1, by omega⟩
  cases denotes <;> rfl

theorem reads_name {sigil : Bool} {word : String} {s : Span} : Reads .primary (.name sigil word s) := by
  intro n r hr hb
  simp only [Derivation.tokens, List.length_cons, List.length_nil, slack] at hb
  obtain ⟨n, rfl⟩ : ∃ n', n = n' + 1 := ⟨n - 1, by omega⟩
  cases sigil with
  | true => rfl
  | false =>
    -- Only before an opening parenthesis the name would be that of a call.
    rcases r with _ | ⟨⟨t, s'⟩, r⟩
    · rfl
    · cases t <;> first | rfl | exact absurd hr.lt (by decide)

theorem reads_call {word : String} {s s' s'' : Span} {args : Derivation .arguments} (ha : ReadsArguments args) :
    Reads .primary (.call word s s' args s'') := by
  intro n r hr hb
  simp only [Derivation.tokens, List.length_append, List.length_cons, List.length_nil, slack] at hb
  obtain ⟨n, rfl⟩ : ∃ n', n = n' + 1 := ⟨n - 1, by omega⟩
  have he := ha n (⟨.rightParen, s''⟩ :: r) (.cons (by decide) _) rfl (by omega)
  simp [read, Parser.primary, he, expect_self (.inr (.inl rfl)), bind, Except.bind, pure, Except.pure]

theorem reads_grouped {s s' : Span} {d : Derived .conditional} (hd : Reads .conditional d) :
    Reads .primary (.grouped s d s') := by
  intro n r hr hb
  simp only [Derivation.tokens, List.length_append, List.length_cons, List.length_nil, slack] at hb
  obtain ⟨n, rfl⟩ : ∃ n', n = n' + 1 := ⟨n - 1, by omega⟩
  have he := hd n (⟨.rightParen, s'⟩ :: r) (.cons (by decide) _) (by simp only [slack]; omega)
  simp only [read] at he
  simp [read, Parser.primary, he, expect_self (.inr (.inl rfl)), bind, Except.bind, pure, Except.pure]

theorem reads_list {s s' : Span} {args : Derivation .arguments} (ha : ReadsArguments args) :
    Reads .primary (.list s args s') := by
  intro n r hr hb
  simp only [Derivation.tokens, List.length_append, List.length_cons, List.length_nil, slack] at hb
  obtain ⟨n, rfl⟩ : ∃ n', n = n' + 1 := ⟨n - 1, by omega⟩
  have he := ha n (⟨.rightBracket, s'⟩ :: r) (.cons (by decide) _) rfl (by omega)
  simp [read, Parser.primary, he, expect_self (.inr (.inr rfl)), bind, Except.bind, pure, Except.pure]

theorem readsArguments_none : ReadsArguments .none := by
  intro n r _ ho hb
  obtain ⟨n, rfl⟩ : ∃ n', n = n' + 1 := ⟨n - 1, by omega⟩
  simp [Parser.items, ho]

theorem readsArguments_some {items : Derivation .items} (hi : ReadsItems items) : ReadsArguments (.some items) :=
  fun n r hr _ hb => (hi n r hr hb).1

/-- Nothing follows the last item. -/
theorem moreItems_eq_nil (hn : 0 < n) (hr : Follows 10 r) : Parser.moreItems n r = .ok ([], r) := by
  obtain ⟨n, rfl⟩ : ∃ n', n = n' + 1 := ⟨n - 1, by omega⟩
  unfold Parser.moreItems
  split
  · exact absurd hr.lt (by decide)
  · rfl

/-- An item is read, whatever comes behind it. -/
theorem readsItems_cons {d : Derived .conditional} (hd : Reads .conditional d) {es : List Expr} {r' : Tokens}
    (hr : Follows 9 r) (hn : 20 * d.tokens.length ≤ n) (hm : Parser.moreItems n r = .ok (es, r')) :
    Parser.items (n + 1) (d.tokens ++ r) = .ok (d.tree :: es, r') ∧
      ∀ comma, Parser.moreItems (n + 1) (⟨.comma, comma⟩ :: (d.tokens ++ r)) = .ok (d.tree :: es, r') := by
  have he := hd n r hr hn
  have ho := opens_append (opens_tokens d nofun) r
  simp only [read] at he
  refine ⟨?_, fun comma => ?_⟩
  · simp only [Parser.items, ho, if_true, he, hm, bind, Except.bind, pure, Except.pure]
  · simp only [Parser.moreItems, ho, if_true, he, hm, bind, Except.bind, pure, Except.pure]

theorem readsItems_last {d : Derived .conditional} (hd : Reads .conditional d) : ReadsItems (.last d) := by
  intro n r hr hb
  have hp := length_tokens_pos d
  simp only [Derivation.tokens] at hb ⊢
  obtain ⟨n, rfl⟩ : ∃ n', n = n' + 1 := ⟨n - 1, by omega⟩
  exact readsItems_cons hd (hr.mono (by decide)) (by omega : 20 * d.tokens.length ≤ n) (moreItems_eq_nil (by omega) hr)

theorem readsItems_more {d : Derived .conditional} {comma : Span} {items : Derivation .items}
    (hd : Reads .conditional d) (hi : ReadsItems items) : ReadsItems (.more d comma items) := by
  intro n r hr hb
  simp only [Derivation.tokens, List.length_append, List.length_cons, List.append_assoc, List.cons_append] at hb ⊢
  obtain ⟨n, rfl⟩ : ∃ n', n = n' + 1 := ⟨n - 1, by omega⟩
  have hes := (hi n r hr (by omega)).2 comma
  exact readsItems_cons hd (.cons (by decide) _) (by omega : 20 * d.tokens.length ≤ n) hes

/-! ## All derivations -/

theorem opens {p : Phrase} (d : Derivation p) : Opens p d := by
  induction d with
  | choice _ _ _ _ _ hc hy hn => exact reads_choice (Opens.reads hc) hy hn
  | plain _ hc => exact reads_plain (Opens.reads hc)
  | operation _ _ _ _ hl hr => exact opens_operation hl (Opens.reads hr)
  | single _ hd => exact opens_single (Opens.reads hd)
  | signed _ _ _ hd => exact reads_signed hd
  | unsigned _ hd => exact reads_unsigned hd
  | raised _ _ _ hb hx => exact reads_raised (Opens.reads hb) hx
  | unraised _ hd => exact reads_unraised (Opens.reads hd)
  | indexed _ _ _ _ hd hi => exact opens_indexed hd hi
  | member _ _ _ _ _ hd => exact opens_member hd
  | unsuffixed _ hd => exact opens_unsuffixed hd
  | literal => exact reads_literal
  | name => exact reads_name
  | call _ _ _ _ _ ha => exact reads_call ha
  | grouped _ _ _ hd => exact reads_grouped hd
  | list _ _ _ ha => exact reads_list ha
  | none => exact readsArguments_none
  | some _ hi => exact readsArguments_some hi
  | last _ hd => exact readsItems_last hd
  | more _ _ _ hd hi => exact readsItems_more hd hi

theorem reads_tree {l : Level} (d : Derived l) : Reads l d :=
  Opens.reads (opens d)

theorem reads {l : Level} (d : Derived l) (n : Nat) (r : Tokens) (hr : Follows l.rank r)
    (hn : 20 * d.tokens.length ≤ n + slack l) : ∃ e, read l n (d.tokens ++ r) = .ok (e, r) ∧ e.term = d.term :=
  ⟨d.tree, reads_tree d n r hr hn, d.meaning_tree⟩

end Sketchwork.Grammar
