/-
  Sketchwork.Proofs.Expr.Viability — which token a list of tokens is rejected at.

  A list of tokens is viable when an expression begins with it (`Viable`). A reader that has to
  stop has taken tokens that a derivation of its phrase begins with, and no comma that nothing
  follows (`Halts`). Each reader keeps this (`halting`). That nothing goes on with the token
  where it stopped is known from how far the readers look (`looking`).
-/
import Sketchwork.Proofs.Expr.Lookahead
import Sketchwork.Proofs.Expr.Parsing

namespace Sketchwork

namespace Grammar

open Sketchwork.Parser (Tier Stop)

/-! ## Last tokens -/

/-- The last token is a comma. -/
def EndsInComma (ts : Tokens) : Prop :=
  ∃ t ∈ ts.getLast?, t.value = .comma

@[simp] theorem endsInComma_append (a b : Tokens) :
    EndsInComma (a ++ b) ↔ EndsInComma b ∨ b = [] ∧ EndsInComma a := by
  cases b with
  | nil => simp [EndsInComma]
  | cons t b => simp [EndsInComma, List.getLast?_append]

@[simp] theorem endsInComma_nil : ¬EndsInComma [] := by
  simp [EndsInComma]

@[simp] theorem endsInComma_cons (t : Spanned Token) (ts : Tokens) :
    EndsInComma (t :: ts) ↔ EndsInComma ts ∨ ts = [] ∧ t.value = .comma := by
  have h := endsInComma_append [t] ts
  simpa [EndsInComma] using h

theorem tokens_ne_nil {p : Phrase} (d : Derivation p) (hp : p ≠ .arguments) : d.tokens ≠ [] := by
  intro h
  have hopens := opens_tokens d hp
  rw [h] at hopens
  cases hopens

/-- No phrase ends in a comma. -/
theorem not_endsInComma_tokens {p : Phrase} (d : Derivation p) : ¬EndsInComma d.tokens := by
  induction d with
  | literal token denotes =>
    obtain ⟨t, s⟩ := token
    cases denotes <;> simp
  | operation _ _ _ rhs => simp_all [tokens_ne_nil rhs nofun]
  | signed _ _ e => simp_all [tokens_ne_nil e nofun]
  | more _ _ items => simp_all [tokens_ne_nil items nofun]
  | _ => simp_all

/-! ## Beginnings of derivations -/

/-- A derivation of the phrase begins with the tokens. -/
def Begins (p : Phrase) (ts : Tokens) : Prop :=
  ∃ d : Derivation p, ts <+: d.tokens

/-- Every phrase can be spelled. -/
theorem nonempty_derivation (p : Phrase) : Nonempty (Derivation p) := by
  have primary : Derived .primary := .literal ⟨.null, .point 0⟩ .null
  have unary : Derived .unary := .unsigned (.unraised (.unsuffixed primary))
  have product : Derived (.tier .product) := .single unary
  have sum : Derived (.tier .sum) := .single product
  have comparison : Derived (.tier .comparison) := .single sum
  have equality : Derived (.tier .equality) := .single comparison
  have and : Derived (.tier .and) := .single equality
  have or : Derived (.tier .or) := .single and
  match p with
  | .expr .conditional => exact ⟨.plain or⟩
  | .expr (.tier t) => cases t <;> exact ⟨‹_›⟩
  | .expr .unary => exact ⟨unary⟩
  | .expr .power => exact ⟨.unraised (.unsuffixed primary)⟩
  | .expr .suffixed => exact ⟨.unsuffixed primary⟩
  | .expr .primary => exact ⟨primary⟩
  | .arguments => exact ⟨.none⟩
  | .items => exact ⟨.last (.plain or)⟩

theorem begins_nil (p : Phrase) : Begins p [] := by
  obtain ⟨d⟩ := nonempty_derivation p
  exact ⟨d, List.nil_prefix⟩

/-! ## Where readers stop -/

/-- Reading a phrase had to stop behind tokens that the phrase begins with, and not behind a
    comma that ends the tokens. -/
def Halts (p : Phrase) (ts : Tokens) (stop : Stop) : Prop :=
  ∃ used, used ++ stop.rest = ts ∧ Begins p used ∧ (stop.rest = [] → ¬EndsInComma used)

namespace Halts

variable {p q : Phrase} {ts : Tokens} {stop : Stop}

/-- Behind tokens that do not end in a comma. -/
theorem behind (d : Derivation p) (used : Tokens) (hd : used <+: d.tokens) (hlast : ¬EndsInComma used) (e : Expected) (r : Tokens) :
    Halts p (used ++ r) ⟨e, r⟩ :=
  ⟨used, rfl, ⟨d, hd⟩, fun _ => hlast⟩

/-- Before the first token. -/
theorem first (e : Expected) (ts : Tokens) : Halts p ts ⟨e, ts⟩ :=
  ⟨[], rfl, begins_nil p, fun _ => endsInComma_nil⟩

/-- Within a larger phrase, behind the tokens `pre` of it. -/
theorem inside (h : Halts p ts stop) (pre : Tokens) (f : Derivation p → Derivation q)
    (hf : ∀ d, pre ++ d.tokens <+: (f d).tokens) (hpre : ts = [] → ¬EndsInComma pre) : Halts q (pre ++ ts) stop := by
  obtain ⟨used, rfl, ⟨d, hd⟩, hlast⟩ := h
  refine ⟨pre ++ used, List.append_assoc .., ⟨f d, ?_⟩, fun hrest => ?_⟩
  · exact (List.prefix_append_right_inj pre).mpr hd |>.trans (hf d)
  · rw [endsInComma_append]
    rintro (h | ⟨rfl, h⟩)
    · exact hlast hrest h
    · exact hpre (by simp [hrest]) h

/-- As a larger phrase that begins with it. -/
theorem lift (h : Halts p ts stop) (f : Derivation p → Derivation q) (hf : ∀ d, d.tokens <+: (f d).tokens) :
    Halts q ts stop :=
  h.inside [] f hf fun _ => endsInComma_nil

end Halts

theorem eq_of_expect_eq_error {t : Token} {e : Expected} {ts : Tokens} {stop : Stop}
    (h : Parser.expect t e ts = .error stop) : stop = ⟨e, ts⟩ := by
  match ts with
  | [] => cases h; rfl
  | ⟨t', s⟩ :: ts =>
    rw [Parser.expect] at h
    split at h
    · cases h
    · cases h; rfl

/-- The readers, `n` deep, stop behind tokens that their phrases begin with; a reader that goes
    on from an expression goes on with its derivation. -/
structure Halting (n : Nat) : Prop where
  conditional {ts : Tokens} {stop : Stop} (h : Parser.conditional n ts = .error stop) :
    Halts (.expr .conditional) ts stop
  binary {t : Tier} {ts : Tokens} {stop : Stop} (h : Parser.binary n t ts = .error stop) :
    Halts (.expr (.tier t)) ts stop
  operand {t : Tier} {ts : Tokens} {stop : Stop} (h : Parser.operand n t ts = .error stop) :
    Halts (.expr (operand t)) ts stop
  operations {t : Tier} {lhs : Expr} {ts : Tokens} {stop : Stop} (h : Parser.operations n t lhs ts = .error stop)
    (a : Derived (.tier t)) : Halts (.expr (.tier t)) (a.tokens ++ ts) stop
  unary {ts : Tokens} {stop : Stop} (h : Parser.unary n ts = .error stop) : Halts (.expr .unary) ts stop
  power {ts : Tokens} {stop : Stop} (h : Parser.power n ts = .error stop) : Halts (.expr .power) ts stop
  suffixes {target : Expr} {ts : Tokens} {stop : Stop} (h : Parser.suffixes n target ts = .error stop)
    (a : Derived .suffixed) : Halts (.expr .suffixed) (a.tokens ++ ts) stop
  primary {ts : Tokens} {stop : Stop} (h : Parser.primary n ts = .error stop) : Halts (.expr .primary) ts stop
  items {ts : Tokens} {stop : Stop} (h : Parser.items n ts = .error stop) : Halts .arguments ts stop
  moreItems {ts : Tokens} {stop : Stop} (h : Parser.moreItems n ts = .error stop) (a : Derived .conditional) :
    Halts .items (a.tokens ++ ts) stop

theorem halting_zero : Halting 0 := by
  have first {p : Phrase} {α : Type} {ts : Tokens} {stop : Stop}
      (h : (.error ⟨.expression, ts⟩ : Except Stop (α × Tokens)) = .error stop) : Halts p ts stop := by
    cases h
    exact .first .expression ts
  exact {
    conditional := first
    binary := first
    operand := first
    operations := fun h a => by
      cases h
      exact .behind a a.tokens (List.prefix_refl _) (not_endsInComma_tokens a) .expression _
    unary := first
    power := first
    suffixes := fun h a => by
      cases h
      exact .behind a a.tokens (List.prefix_refl _) (not_endsInComma_tokens a) .expression _
    primary := first
    items := first
    moreItems := fun h a => by
      cases h
      exact .behind (.last a) a.tokens (List.prefix_refl _) (not_endsInComma_tokens a) .expression _ }

section

variable {n : Nat} (ih : Halting n) {ts : Tokens} {stop : Stop}
include ih

theorem conditional_halts (h : Parser.conditional (n + 1) ts = .error stop) : Halts (.expr .conditional) ts stop := by
  obtain h₁ | ⟨⟨c, ts'⟩, hc, h₁⟩ := cases_of_bind_eq_error h
  · exact (ih.binary h₁).lift .plain fun _ => List.prefix_refl _
  obtain ⟨dc, rfl, -⟩ := (sound n).binary hc
  dsimp only at h₁
  split at h₁
  · rename_i q ts'
    obtain h₂ | ⟨⟨yes, ts''⟩, hy, h₂⟩ := cases_of_bind_eq_error h₁
    · have hyes := (ih.conditional h₂).inside (dc.tokens ++ [⟨.question, q⟩])
        (fun yes => .choice dc q yes q yes) (fun d => by simp) (by simp)
      simpa using hyes
    obtain ⟨dy, rfl, -⟩ := (sound n).conditional hy
    obtain h₃ | ⟨⟨k, ts''⟩, hk, h₃⟩ := cases_of_bind_eq_error h₂
    · obtain rfl := eq_of_expect_eq_error h₃
      have hcolon := Halts.behind (.choice dc q dy q dy) (dc.tokens ++ ⟨.question, q⟩ :: dy.tokens)
        (by simp) (by simp [not_endsInComma_tokens]) .colon ts''
      simpa using hcolon
    obtain rfl := eq_of_expect (.inl rfl) hk
    obtain h₄ | ⟨⟨no, ts⟩, -, h₄⟩ := cases_of_bind_eq_error h₃
    · have hno := (ih.conditional h₄).inside (dc.tokens ++ ⟨.question, q⟩ :: (dy.tokens ++ [⟨.colon, k⟩]))
        (fun no => .choice dc q dy k no) (fun d => by simp) (by simp)
      simpa using hno
    · cases h₄
  · cases h₁

theorem binary_halts {t : Tier} (h : Parser.binary (n + 1) t ts = .error stop) : Halts (.expr (.tier t)) ts stop := by
  obtain h₁ | ⟨⟨lhs, ts'⟩, hl, h₁⟩ := cases_of_bind_eq_error h
  · exact (ih.operand h₁).lift .single fun _ => List.prefix_refl _
  · obtain ⟨dl, rfl, -⟩ := (sound n).operand hl
    exact ih.operations h₁ (.single dl)

theorem operand_halts {t : Tier} (h : Parser.operand (n + 1) t ts = .error stop) :
    Halts (.expr (operand t)) ts stop := by
  cases t <;> first | exact ih.binary h | exact ih.unary h

theorem operations_halts {t : Tier} {lhs : Expr} (h : Parser.operations (n + 1) t lhs ts = .error stop)
    (a : Derived (.tier t)) : Halts (.expr (.tier t)) (a.tokens ++ ts) stop := by
  unfold Parser.operations at h
  split at h
  · cases h
  · rename_i sign rest
    split at h
    · cases h
    · rename_i op hop
      have joins := joins_of_operator? hop
      have hsign : sign.value ≠ .comma := fun hcomma => by rw [hcomma] at joins; cases joins
      obtain h₁ | ⟨⟨rhs, rest'⟩, hr, h₁⟩ := cases_of_bind_eq_error h
      · have hrhs := (ih.operand h₁).inside (a.tokens ++ [sign]) (fun b => .operation a sign joins b)
          (fun d => by simp) (by simp [hsign])
        simpa using hrhs
      · obtain ⟨dr, rfl, -⟩ := (sound n).operand hr
        simpa using ih.operations h₁ (.operation a sign joins dr)

theorem unary_halts (h : Parser.unary (n + 1) ts = .error stop) : Halts (.expr .unary) ts stop := by
  have unsigned {ts : Tokens} (h : Parser.power n ts = .error stop) : Halts (.expr .unary) ts stop :=
    (ih.power h).lift .unsigned fun _ => List.prefix_refl _
  unfold Parser.unary at h
  split at h
  · exact unsigned h
  · rename_i sign rest
    split at h
    · exact unsigned h
    · rename_i op hop
      have signs := signs_of_sign? hop
      have hsign : sign.value ≠ .comma := fun hcomma => by rw [hcomma] at signs; cases signs
      obtain h₁ | ⟨⟨e, rest'⟩, -, h₁⟩ := cases_of_bind_eq_error h
      · exact (ih.unary h₁).inside ([sign]) (fun e => .signed sign signs e) (fun d => List.prefix_refl _)
          (by simp [hsign])
      · cases h₁

theorem power_halts (h : Parser.power (n + 1) ts = .error stop) : Halts (.expr .power) ts stop := by
  obtain h₁ | ⟨⟨base, ts'⟩, hp, h₁⟩ := cases_of_bind_eq_error h
  · exact (ih.primary h₁).lift (fun d => .unraised (.unsuffixed d)) fun _ => List.prefix_refl _
  obtain ⟨dp, rfl, ep⟩ := (sound n).primary hp
  obtain h₂ | ⟨⟨base', ts''⟩, hs, h₂⟩ := cases_of_bind_eq_error h₁
  · exact (ih.suffixes h₂ (.unsuffixed dp)).lift .unraised fun _ => List.prefix_refl _
  obtain ⟨ds, hds, -⟩ := (sound n).suffixes hs (.unsuffixed dp) ep
  rw [show dp.tokens ++ ts' = ds.tokens ++ ts'' from hds.symm]
  dsimp only at h₂
  split at h₂
  · rename_i caret ts'
    obtain h₃ | ⟨⟨x, ts''⟩, -, h₃⟩ := cases_of_bind_eq_error h₂
    · have hx := (ih.unary h₃).inside (ds.tokens ++ [⟨.caret, caret⟩]) (fun x => .raised ds caret x)
        (fun d => by simp) (by simp)
      simpa using hx
    · cases h₃
  · cases h₂

theorem suffixes_halts {target : Expr} (h : Parser.suffixes (n + 1) target ts = .error stop) (a : Derived .suffixed) :
    Halts (.expr .suffixed) (a.tokens ++ ts) stop := by
  unfold Parser.suffixes at h
  split at h
  · rename_i opening ts
    obtain h₁ | ⟨⟨i, ts'⟩, hi, h₁⟩ := cases_of_bind_eq_error h
    · have hindex := (ih.conditional h₁).inside (a.tokens ++ [⟨.leftBracket, opening⟩])
        (fun i => .indexed a opening i opening) (fun d => by simp) (by simp)
      simpa using hindex
    obtain ⟨di, rfl, -⟩ := (sound n).conditional hi
    obtain h₂ | ⟨⟨closing, ts''⟩, hc, h₂⟩ := cases_of_bind_eq_error h₁
    · obtain rfl := eq_of_expect_eq_error h₂
      have hclose := Halts.behind (.indexed a opening di opening)
        (a.tokens ++ ⟨.leftBracket, opening⟩ :: di.tokens) (by simp) (by simp [not_endsInComma_tokens])
        .closingBracket ts'
      simpa using hclose
    obtain rfl := eq_of_expect (.inr (.inr rfl)) hc
    simpa using ih.suffixes h₂ (.indexed a opening di closing)
  · rename_i dot sigil word span ts
    simpa using ih.suffixes h (.member a dot sigil word span)
  · rename_i dot ts _
    cases h
    have hname := Halts.behind (.member a dot false "" dot) (a.tokens ++ [⟨.dot, dot⟩]) (by simp) (by simp)
      .identifier ts
    simpa using hname
  · cases h

theorem primary_halts (h : Parser.primary (n + 1) ts = .error stop) : Halts (.expr .primary) ts stop := by
  unfold Parser.primary at h
  split at h
  · cases h
  · cases h
  · cases h
  · cases h
  · cases h
  · rename_i word span opening ts
    have hpre : ¬EndsInComma [⟨.name false word, span⟩, ⟨.leftParen, opening⟩] := by simp
    obtain h₁ | ⟨⟨args, ts'⟩, ha, h₁⟩ := cases_of_bind_eq_error h
    · exact (ih.items h₁).inside [⟨.name false word, span⟩, ⟨.leftParen, opening⟩] (fun args => .call word span opening args opening) (fun d => by simp) fun _ => hpre
    obtain ⟨da, rfl, -⟩ := (sound n).items ha
    obtain h₂ | ⟨⟨closing, ts''⟩, -, h₂⟩ := cases_of_bind_eq_error h₁
    · obtain rfl := eq_of_expect_eq_error h₂
      exact Halts.behind (.call word span opening da opening)
        (⟨.name false word, span⟩ :: ⟨.leftParen, opening⟩ :: da.tokens) (by simp)
        (by simp [not_endsInComma_tokens]) .closingDelimiter ts'
    · cases h₂
  · cases h
  · rename_i opening ts
    obtain h₁ | ⟨⟨e, ts'⟩, he, h₁⟩ := cases_of_bind_eq_error h
    · exact (ih.conditional h₁).inside ([⟨.leftParen, opening⟩]) (fun e => .grouped opening e opening)
        (fun d => by simp) (by simp)
    obtain ⟨d, rfl, -⟩ := (sound n).conditional he
    obtain h₂ | ⟨⟨closing, ts''⟩, -, h₂⟩ := cases_of_bind_eq_error h₁
    · obtain rfl := eq_of_expect_eq_error h₂
      exact Halts.behind (.grouped opening d opening) (⟨.leftParen, opening⟩ :: d.tokens) (by simp)
        (by simp [not_endsInComma_tokens]) .closingParen ts'
    · cases h₂
  · rename_i opening ts
    obtain h₁ | ⟨⟨es, ts'⟩, he, h₁⟩ := cases_of_bind_eq_error h
    · exact (ih.items h₁).inside ([⟨.leftBracket, opening⟩]) (fun es => .list opening es opening)
        (fun d => by simp) (by simp)
    obtain ⟨d, rfl, -⟩ := (sound n).items he
    obtain h₂ | ⟨⟨closing, ts''⟩, -, h₂⟩ := cases_of_bind_eq_error h₁
    · obtain rfl := eq_of_expect_eq_error h₂
      exact Halts.behind (.list opening d opening) (⟨.leftBracket, opening⟩ :: d.tokens) (by simp)
        (by simp [not_endsInComma_tokens]) .closingDelimiter ts'
    · cases h₂
  · cases h
    exact .first .expression ts

theorem items_halts (h : Parser.items (n + 1) ts = .error stop) : Halts .arguments ts stop := by
  unfold Parser.items at h
  split at h
  · obtain h₁ | ⟨⟨e, ts'⟩, he, h₁⟩ := cases_of_bind_eq_error h
    · exact (ih.conditional h₁).lift (fun e => .some (.last e)) fun _ => List.prefix_refl _
    obtain ⟨d, rfl, -⟩ := (sound n).conditional he
    obtain h₂ | ⟨⟨es, ts''⟩, -, h₂⟩ := cases_of_bind_eq_error h₁
    · exact (ih.moreItems h₂ d).lift .some fun _ => List.prefix_refl _
    · cases h₂
  · cases h

theorem moreItems_halts (h : Parser.moreItems (n + 1) ts = .error stop) (a : Derived .conditional) :
    Halts .items (a.tokens ++ ts) stop := by
  unfold Parser.moreItems at h
  split at h
  · rename_i comma rest
    split at h
    · rename_i hopens
      obtain h₁ | ⟨⟨e, ts'⟩, he, h₁⟩ := cases_of_bind_eq_error h
      · have hitem := (ih.conditional h₁).inside (a.tokens ++ [⟨.comma, comma⟩])
          (fun e => .more a comma (.last e)) (fun d => by simp) (fun hrest => by rw [hrest] at hopens; cases hopens)
        simpa using hitem
      obtain ⟨d, rfl, -⟩ := (sound n).conditional he
      obtain h₂ | ⟨⟨es, ts''⟩, -, h₂⟩ := cases_of_bind_eq_error h₁
      · have hitems := (ih.moreItems h₂ d).inside (a.tokens ++ [⟨.comma, comma⟩])
          (fun items => .more a comma items) (fun d => by simp) (by simp [tokens_ne_nil d nofun])
        simpa using hitems
      · cases h₂
    · cases h
  · cases h

end

theorem halting (n : Nat) : Halting n := by
  induction n with
  | zero => exact halting_zero
  | succ n ih =>
    exact {
      conditional := conditional_halts ih
      binary := binary_halts ih
      operand := operand_halts ih
      operations := operations_halts ih
      unary := unary_halts ih
      power := power_halts ih
      suffixes := suffixes_halts ih
      primary := primary_halts ih
      items := items_halts ih
      moreItems := moreItems_halts ih }

/-! ## Viable tokens -/

/-- An expression is read from the tokens. -/
def Accepted (ts : Tokens) : Prop :=
  ∃ whole e, Parser.expression whole ts = .ok e

/-- An expression is read from the tokens with some more behind them. -/
def Viable (ts : Tokens) : Prop :=
  ∃ more, Accepted (ts ++ more)

theorem Viable.of_append {a b : Tokens} (h : Viable (a ++ b)) : Viable a := by
  obtain ⟨more, h⟩ := h
  exact ⟨b ++ more, by rwa [← List.append_assoc]⟩

theorem accepted_iff {ts : Tokens} : Accepted ts ↔ ∃ e, Parser.conditional (Parser.depthBound ts) ts = .ok (e, []) := by
  simp only [Accepted, expression_eq_ok_iff]
  exact ⟨fun ⟨_, h⟩ => h, fun h => ⟨.point 0, h⟩⟩

theorem accepted_tokens (d : Derived .conditional) : Accepted d.tokens := by
  obtain ⟨e, he, -⟩ := reads d (Parser.depthBound d.tokens) [] (follows_nil _)
    (by simp only [Parser.depthBound]; omega)
  exact accepted_iff.mpr ⟨e, by simpa [read] using he⟩

theorem Begins.viable {ts : Tokens} (h : Begins (.expr .conditional) ts) : Viable ts := by
  obtain ⟨d, more, hd⟩ := h
  exact ⟨more, hd ▸ accepted_tokens d⟩

/-- Tokens that begin alike are read alike up to where they differ. -/
theorem agrees (a x y : Tokens) :
    Parser.Agree false x y (Parser.conditional (Parser.depthBound (a ++ x)) (a ++ x))
      (Parser.conditional (Parser.depthBound (a ++ y)) (a ++ y)) :=
  (Parser.looking _ _).conditional.agree a x y (Nat.le_refl _) (Nat.le_refl _)

/-- Where reading has to stop whatever comes behind nothing viable goes on. -/
theorem not_viable_of_stop {a k x : Tokens} {e : Expected}
    (h : Parser.conditional (Parser.depthBound (a ++ x)) (a ++ x) = .error ⟨e, k ++ x⟩)
    (hk : Parser.Settles (e == .closingDelimiter) k) : ¬Viable a := by
  rintro ⟨more, hmore⟩
  obtain ⟨v, hv⟩ := accepted_iff.mp hmore
  have hagree := agrees a x more
  rw [h] at hagree
  rw [hagree k rfl hk] at hv
  cases hv

/-- Behind a whole expression nothing viable goes on with a token that reading left. -/
theorem not_viable_of_left {a k x : Tokens} {e : Expr}
    (h : Parser.conditional (Parser.depthBound (a ++ x)) (a ++ x) = .ok (e, k ++ x)) (hk : k ≠ []) : ¬Viable a := by
  rintro ⟨more, hmore⟩
  obtain ⟨v, hv⟩ := accepted_iff.mp hmore
  have hagree := agrees a x more
  rw [h] at hagree
  rw [hagree k rfl ⟨hk, nofun⟩] at hv
  cases k with
  | nil => exact hk rfl
  | cons => cases hv

/-- The token that reading stopped at is the first that is not viable, but for a comma in a
    list: there it is the next one, or none. -/
structure Offends (ts : Tokens) (front : Tokens) (t : Spanned Token) (rest : Tokens) : Prop where
  eq : ts = front ++ t :: rest
  viable : Viable front
  comma (h : Viable (front ++ [t])) : t.value = .comma
  next (h : Viable (front ++ [t])) (t' : Spanned Token) (ht : t' ∈ rest.head?) : ¬Viable (front ++ [t, t'])

theorem offends_of_left {ts : Tokens} {e : Expr} {t : Spanned Token} {rest : Tokens}
    (h : Parser.conditional (Parser.depthBound ts) ts = .ok (e, t :: rest)) : ∃ front, Offends ts front t rest := by
  obtain ⟨d, rfl, -⟩ := (sound _).conditional h
  have hnot : ¬Viable (d.tokens ++ [t]) :=
    not_viable_of_left (k := [t]) (x := rest) (by simpa using h) (List.cons_ne_nil _ _)
  exact ⟨d.tokens, rfl, ⟨[], by simpa using accepted_tokens d⟩, fun h => absurd h hnot, fun h => absurd h hnot⟩

theorem offends_of_stop {ts : Tokens} {e : Expected} {t : Spanned Token} {rest : Tokens}
    (h : Parser.conditional (Parser.depthBound ts) ts = .error ⟨e, t :: rest⟩) : ∃ front, Offends ts front t rest := by
  obtain ⟨front, rfl, hbegins, -⟩ := (halting _).conditional h
  refine ⟨front, rfl, hbegins.viable, fun hviable => ?_, fun hviable t' ht' => ?_⟩
  · by_contra hcomma
    have hsettles : Parser.Settles (e == .closingDelimiter) [t] :=
      ⟨List.cons_ne_nil _ _, fun _ s hs => hcomma (congrArg Spanned.value (List.cons.inj hs).1)⟩
    exact not_viable_of_stop (k := [t]) (x := rest) (by simpa using h) hsettles hviable
  · obtain ⟨rest, rfl⟩ := List.head?_eq_some_iff.mp ht'
    have hsettles : Parser.Settles (e == .closingDelimiter) [t, t'] :=
      ⟨List.cons_ne_nil _ _, fun _ s hs => nomatch (List.cons.inj hs).2⟩
    exact not_viable_of_stop (k := [t, t']) (x := rest) (by simpa using h) hsettles

/-- What is viable and offends has a comma for its last token. -/
theorem Offends.endsInComma {ts front : Tokens} {t : Spanned Token} {rest : Tokens} (h : Offends ts front t rest)
    (hts : Viable ts) : EndsInComma ts := by
  obtain rfl := h.eq
  have ht : Viable (front ++ [t]) := .of_append (b := rest) (by simpa using hts)
  cases rest with
  | nil => simp [h.comma ht]
  | cons t' rest => exact absurd (.of_append (b := rest) (by simpa using hts)) (h.next ht t' rfl)

/-- The one fault of tokens that are no expression: they end early if and only if an expression
    begins with them and their last token is no comma; otherwise the fault is at a token. -/
theorem rejected_at {whole : Span} {ts : Tokens} {d : Diagnostic} (h : Parser.expression whole ts = .error d) :
    (d.fault.code = .e303 ↔ Viable ts ∧ ¬EndsInComma ts) ∧
      (d.fault.code ≠ .e303 → d.fault.code = .e302 ∧ ∃ front t rest, Offends ts front t rest ∧ d.span = t.span) := by
  have at_token {front : Tokens} {t : Spanned Token} {rest : Tokens} (hoffends : Offends ts front t rest)
      (hcode : d.fault.code = .e302) (hspan : d.span = t.span) :
      (d.fault.code = .e303 ↔ Viable ts ∧ ¬EndsInComma ts) ∧
        (d.fault.code ≠ .e303 → d.fault.code = .e302 ∧ ∃ front t rest, Offends ts front t rest ∧ d.span = t.span) := by
    refine ⟨⟨fun h => ?_, fun ⟨hviable, hlast⟩ => absurd (hoffends.endsInComma hviable) hlast⟩,
      fun _ => ⟨hcode, front, t, rest, hoffends, hspan⟩⟩
    rw [hcode] at h
    cases h
  unfold Parser.expression at h
  split at h
  · cases h
  · rename_i hr
    obtain ⟨front, hoffends⟩ := offends_of_left hr
    cases h
    exact at_token hoffends rfl rfl
  · rename_i hr
    obtain ⟨front, hoffends⟩ := offends_of_stop hr
    cases h
    exact at_token hoffends rfl rfl
  · rename_i e hr
    cases h
    obtain ⟨used, hused, hbegins, hlast⟩ := (halting _).conditional hr
    obtain rfl : used = ts := by simpa using hused
    exact ⟨⟨fun _ => ⟨hbegins.viable, hlast rfl⟩, fun _ => rfl⟩, fun h => absurd rfl h⟩

/-- `(a` ends early, and expressions begin with it. -/
theorem rejected_at_openGroup :
    ∃ d, Parser.expression (.sized 0 2) [⟨.leftParen, .sized 0 1⟩, ⟨.name false "a", .sized 1 1⟩] = .error d ∧
      Viable [⟨.leftParen, .sized 0 1⟩, ⟨.name false "a", .sized 1 1⟩] := by
  have h : Parser.expression (.sized 0 2) [⟨.leftParen, .sized 0 1⟩, ⟨.name false "a", .sized 1 1⟩] =
      .error ⟨.endedEarly .closingParen, .sized 1 1⟩ := rfl
  exact ⟨_, h, ((rejected_at h).1.mp rfl).1⟩

/-- `[a,` is rejected at its comma, though `[a, a]` begins with it. -/
theorem unfinished_list_rejected_at_comma :
    ∃ whole front comma d, Parser.expression whole (front ++ [⟨.comma, comma⟩]) = .error d ∧
      (∃ more, more ≠ [] ∧ Accepted (front ++ [⟨.comma, comma⟩] ++ more)) ∧ d.fault.code = .e302 ∧ d.span = comma := by
  refine ⟨.sized 0 3, [⟨.leftBracket, .sized 0 1⟩, ⟨.name false "a", .sized 1 1⟩], .sized 2 1, _, rfl, ?_, rfl, rfl⟩
  exact ⟨[⟨.name false "a", .sized 3 1⟩, ⟨.rightBracket, .sized 4 1⟩], List.cons_ne_nil _ _, .sized 0 5, _, rfl⟩

end Grammar

end Sketchwork
