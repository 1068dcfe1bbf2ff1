/-
  Sketchwork.Proofs.Expr.Lookahead — how far the readers of expressions look.

  Where a reader stops is settled by the next token. Only a list of items that comes to a comma
  has to see the token behind it, too (`Settles`). So two lists of tokens that agree up to there
  are read alike, whatever comes behind and however many nested readers are left, as long as
  these are enough (`Looks`). Each reader keeps this (`looking`).
-/
import Sketchwork.Proofs.Expr.Completeness
import Sketchwork.Proofs.Expr.Faults

namespace Sketchwork.Parser

open Grammar (Level slack length_tokens_pos slack_le sound)

variable {α β : Type} {listed : Bool} {B B' : Nat}

/-! ## Readings that agree -/

/-- The first tokens that reading left settle that it had to stop there. -/
structure Settles (listed : Bool) (k : Tokens) : Prop where
  ne_nil : k ≠ []
  ne_comma (h : listed = true) (s : Span) : k ≠ [⟨.comma, s⟩]

/-- Two readings, of tokens that end in `x` and in `y`, are the same if they stop before that. -/
def Agree (listed : Bool) (x y : Tokens) (left right : Except Stop (α × Tokens)) : Prop :=
  match left with
  | .ok (v, r) => ∀ k, r = k ++ x → Settles listed k → right = .ok (v, k ++ y)
  | .error stop => ∀ k, stop.rest = k ++ x → Settles (stop.expected == .closingDelimiter) k →
      right = .error ⟨stop.expected, k ++ y⟩

/-- A reader looks no further than it has to: it agrees with another one on all tokens that
    these have nested readers for, 20 for every token and 20 more. -/
structure Looks (listed : Bool) (B B' : Nat) (f g : Tokens → Except Stop (α × Tokens)) : Prop where
  leaves (ts : Tokens) : Leaves ts (f ts)
  agree (a x y : Tokens) (hx : 20 * ((a ++ x).length + 1) ≤ B) (hy : 20 * ((a ++ y).length + 1) ≤ B') :
    Agree listed x y (f (a ++ x)) (g (a ++ y))

theorem eq_nil_of_isSuffix {k x r : Tokens} (h : r <:+ x) (hr : r = k ++ x) : k = [] := by
  have hlen := h.length_le
  rw [hr, List.length_append] at hlen
  exact List.length_eq_zero_iff.mp (by omega)

/-- A reader that begins where the tokens differ does not stop before. -/
theorem agree_of_leaves {x y : Tokens} {left right : Except Stop (α × Tokens)} (h : Leaves x left) :
    Agree listed x y left right := by
  rcases left with stop | ⟨v, r⟩
  · intro k hk hsettles
    exact absurd (eq_nil_of_isSuffix h hk) hsettles.ne_nil
  · intro k hk hsettles
    exact absurd (eq_nil_of_isSuffix h hk) hsettles.ne_nil

namespace Looks

variable {f g : Tokens → Except Stop (α × Tokens)}

theorem mono {C C' : Nat} (h : Looks listed B B' f g) (hC : C ≤ B) (hC' : C' ≤ B') : Looks listed C C' f g :=
  ⟨h.leaves, fun a x y hx hy => h.agree a x y (Nat.le_trans hx hC) (Nat.le_trans hy hC')⟩

/-- Where nested readers are left for no tokens at all there is nothing to say. -/
theorem of_lt (hf : ∀ ts, Leaves ts (f ts)) (h : B < 20 ∨ B' < 20) : Looks listed B B' f g :=
  ⟨hf, fun a x y hx hy => by omega⟩

theorem ok (v : α) : Looks listed B B' (fun ts => .ok (v, ts)) fun ts => .ok (v, ts) := by
  refine ⟨fun ts => .ok v ts, fun a x y _ _ k hk _ => ?_⟩
  rw [List.append_cancel_right hk]

theorem stopped (e : Expected) : Looks listed B B' (fun ts => (.error ⟨e, ts⟩ : Except Stop (α × Tokens)))
    fun ts => .error ⟨e, ts⟩ := by
  refine ⟨fun ts => .stopped e ts, fun a x y _ _ k hk _ => ?_⟩
  rw [List.append_cancel_right hk]

/-- A reader that decides by the next token how it goes on. -/
theorem peek (hnil : Leaves [] (f [])) (h : ∀ t, ∃ f' g', Looks listed B B' f' g' ∧
    ∀ ts, f (t :: ts) = f' (t :: ts) ∧ g (t :: ts) = g' (t :: ts)) : Looks listed B B' f g := by
  have hleaves (ts : Tokens) : Leaves ts (f ts) := by
    cases ts with
    | nil => exact hnil
    | cons t ts =>
      obtain ⟨f', g', hlooks, heq⟩ := h t
      rw [(heq ts).1]
      exact hlooks.leaves (t :: ts)
  refine ⟨hleaves, fun a x y hx hy => ?_⟩
  cases a with
  | nil => exact agree_of_leaves (hleaves x)
  | cons t a =>
    obtain ⟨f', g', hlooks, heq⟩ := h t
    rw [List.cons_append, List.cons_append, (heq (a ++ x)).1, (heq (a ++ y)).2]
    exact hlooks.agree (t :: a) x y hx hy

/-- A reader that takes the next token. -/
theorem tail (h : Looks listed (B - 20) (B' - 20) f g) : Looks listed B B' (fun ts => f ts.tail) fun ts => g ts.tail := by
  have hleaves (ts : Tokens) : Leaves ts (f ts.tail) :=
    (h.leaves ts.tail).behind (List.tail_suffix ts)
  refine ⟨hleaves, fun a x y hx hy => ?_⟩
  cases a with
  | nil => exact agree_of_leaves (hleaves x)
  | cons t a =>
    simp only [List.cons_append, List.length_cons] at hx hy
    exact h.agree a x y (by omega) (by omega)

/-- One reader behind another one, which has taken at least `taken` tokens. -/
theorem bind (taken : Nat) {f₂ g₂ : α → Tokens → Except Stop (β × Tokens)} (h : Looks false B B' f g)
    (htakes : ∀ ts v r, f ts = .ok (v, r) → r.length + taken ≤ ts.length)
    (h₂ : ∀ v, Looks listed (B - 20 * taken) (B' - 20 * taken) (f₂ v) (g₂ v)) :
    Looks listed B B' (fun ts => f ts >>= fun p => f₂ p.1 p.2) fun ts => g ts >>= fun p => g₂ p.1 p.2 := by
  refine ⟨fun ts => (h.leaves ts).bind fun v r => (h₂ v).leaves r, fun a x y hx hy => ?_⟩
  have hagree := h.agree a x y hx hy
  have hleaves := h.leaves (a ++ x)
  cases hf : f (a ++ x) with
  | error stop =>
    rw [hf] at hagree
    intro k hk hsettles
    rw [hagree k hk hsettles]
    rfl
  | ok p =>
    obtain ⟨v, r⟩ := p
    rw [hf] at hagree hleaves
    -- if the second reader stops before `x` it began before `x`, so both are where the tokens agree
    have both {s k : Tokens} (hs : s <:+ r) (hk : s = k ++ x) (hne : k ≠ []) : ∃ m, r = m ++ k ++ x ∧
        g (a ++ y) = .ok (v, m ++ k ++ y) ∧ Agree listed x y (f₂ v r) (g₂ v (m ++ k ++ y)) := by
      obtain ⟨m, rfl⟩ := hs
      subst hk
      rw [← List.append_assoc] at hf hagree hleaves ⊢
      obtain ⟨used, hused⟩ : m ++ k ++ x <:+ a ++ x := hleaves
      obtain rfl : used ++ (m ++ k) = a := List.append_cancel_right (by simpa using hused)
      have htaken := htakes _ _ _ hf
      simp only [List.length_append] at hx hy htaken
      refine ⟨m, rfl, hagree (m ++ k) rfl ⟨by simp [hne], nofun⟩, (h₂ v).agree (m ++ k) x y ?_ ?_⟩
      · simp only [List.length_append]
        omega
      · simp only [List.length_append]
        omega
    have hleaves₂ := (h₂ v).leaves r
    show Agree listed x y (f₂ v r) _
    cases hf₂ : f₂ v r with
    | error stop =>
      rw [hf₂] at hleaves₂
      intro k hk hsettles
      obtain ⟨m, rfl, hg, hagree₂⟩ := both hleaves₂ hk hsettles.ne_nil
      rw [hf₂] at hagree₂
      rw [hg]
      exact hagree₂ k hk hsettles
    | ok q =>
      obtain ⟨w, r'⟩ := q
      rw [hf₂] at hleaves₂
      intro k hk hsettles
      obtain ⟨m, rfl, hg, hagree₂⟩ := both hleaves₂ hk hsettles.ne_nil
      rw [hf₂] at hagree₂
      rw [hg]
      exact hagree₂ k hk hsettles

theorem map (h : Looks listed B B' f g) (value : α → β) :
    Looks listed B B' (fun ts => f ts >>= fun p => .ok (value p.1, p.2)) fun ts => g ts >>= fun p => .ok (value p.1, p.2) := by
  refine ⟨fun ts => (h.leaves ts).bind fun v r => .ok _ r, fun a x y hx hy => ?_⟩
  have hagree := h.agree a x y hx hy
  cases hf : f (a ++ x) with
  | error stop =>
    rw [hf] at hagree
    intro k hk hsettles
    rw [hagree k hk hsettles]
    rfl
  | ok p =>
    rw [hf] at hagree
    intro k hk hsettles
    rw [hagree k hk hsettles]
    rfl

end Looks

/-! ## Punctuation -/

theorem expect_looks (t : Token) (e : Expected) : Looks listed B B' (expect t e) (expect t e) := by
  refine .peek (.stopped e []) fun t' => ?_
  cases ht : t'.value == t with
  | true => exact ⟨_, _, .tail (.ok t'.span), fun ts => by simp [expect, ht]⟩
  | false => exact ⟨_, _, .stopped e, fun ts => by simp [expect, ht]⟩

theorem length_of_expect {t : Token} {e : Expected} (ts : Tokens) (v : Span) (r : Tokens)
    (h : expect t e ts = .ok (v, r)) : r.length + 1 ≤ ts.length := by
  match ts with
  | [] => cases h
  | ⟨t', span⟩ :: ts =>
    rw [expect] at h
    split at h
    · cases h
      exact Nat.le_refl _
    · cases h

/-- Items with their closing bracket: the bracket settles where the items end. -/
theorem bracketed_looks {f g : Tokens → Except Stop (α × Tokens)} (h : Looks true B B' f g) (close : Token)
    (value : α → Span → β) :
    Looks listed B B' (fun ts => f ts >>= fun p => expect close .closingDelimiter p.2 >>= fun q => .ok (value p.1 q.1, q.2))
      fun ts => g ts >>= fun p => expect close .closingDelimiter p.2 >>= fun q => .ok (value p.1 q.1, q.2) := by
  refine ⟨fun ts => (h.leaves ts).bind fun v r => (expect_leaves close _ r).bind fun s r => .ok _ r, ?_⟩
  intro a x y hx hy
  have hagree := h.agree a x y hx hy
  cases hf : f (a ++ x) with
  | error stop =>
    rw [hf] at hagree
    intro k hk hsettles
    rw [hagree k hk hsettles]
    rfl
  | ok p =>
    obtain ⟨v, r⟩ := p
    rw [hf] at hagree
    cases r with
    | nil =>
      intro k hk hsettles
      exact absurd (List.append_eq_nil_iff.mp hk.symm).1 hsettles.ne_nil
    | cons t r =>
      cases ht : t.value == close with
      | true =>
        simp only [bind, Except.bind, expect, ht]
        intro k hk hsettles
        obtain rfl : r = k ++ x := hk
        have hsettles' : Settles true (t :: k) :=
          ⟨List.cons_ne_nil t k, fun _ s h => hsettles.ne_nil (List.cons.inj h).2⟩
        rw [hagree (t :: k) rfl hsettles']
        simp [ht]
      | false =>
        simp only [bind, Except.bind, expect, ht]
        intro k hk hsettles
        rw [hagree k hk hsettles]
        cases k with
        | nil => exact absurd rfl hsettles.ne_nil
        | cons t' k =>
          obtain rfl : t = t' := (List.cons.inj hk).1
          simp [ht]

/-! ## How the readers go on -/

/-- Behind the condition. -/
def choice (n : Nat) (c : Expr) : Tokens → Except Stop (Expr × Tokens)
  | ⟨.question, _⟩ :: ts => do
    let (yes, ts) ← conditional n ts
    let (_, ts) ← expect .colon .colon ts
    let (no, ts) ← conditional n ts
    return (.conditional c yes no (c.span.union no.span), ts)
  | ts => return (c, ts)

/-- Behind the base of a power. -/
def exponent (n : Nat) (base : Expr) : Tokens → Except Stop (Expr × Tokens)
  | ⟨.caret, _⟩ :: ts => do
    let (exponent, ts) ← unary n ts
    return (.ofBinary .power base exponent, ts)
  | ts => return (base, ts)

/-- Behind the dot of a member. -/
def named (n : Nat) (target : Expr) : Tokens → Except Stop (Expr × Tokens)
  | ⟨.name sigil word, span⟩ :: ts =>
    suffixes n (.member target ⟨Grammar.written sigil word, span⟩ (target.span.union span)) ts
  | ts => .error ⟨.identifier, ts⟩

/-- Behind a name that may be a function's. -/
def called (n : Nat) (word : String) (span : Span) : Tokens → Except Stop (Expr × Tokens)
  | ⟨.leftParen, _⟩ :: ts => do
    let (args, ts) ← items n ts
    let (close, ts) ← expect .rightParen .closingDelimiter ts
    return (.call ⟨word, span⟩ args (span.union close), ts)
  | ts => .ok (.variable word span, ts)

theorem conditional_succ (n : Nat) :
    conditional (n + 1) = fun ts => binary n .or ts >>= fun p => choice n p.1 p.2 := by
  funext ts
  rfl

theorem binary_succ (n : Nat) (t : Tier) :
    binary (n + 1) t = fun ts => operand n t ts >>= fun p => operations n t p.1 p.2 := by
  funext ts
  rfl

theorem power_succ (n : Nat) : power (n + 1) = fun ts => primary n ts >>= fun p =>
    suffixes n p.1 p.2 >>= fun q => exponent n q.1 q.2 := by
  funext ts
  rfl

/-! ## The invariant -/

/-- The readers with `n` and with `m` nested readers left look no further than they have to. -/
structure Looking (n m : Nat) : Prop where
  conditional : Looks false n m (conditional n) (conditional m)
  binary (t : Tier) : Looks false (n + slack (.tier t)) (m + slack (.tier t)) (binary n t) (binary m t)
  operand (t : Tier) : Looks false (n + slack (.tier t) + 1) (m + slack (.tier t) + 1) (operand n t) (operand m t)
  operations (t : Tier) (lhs : Expr) : Looks false n m (operations n t lhs) (operations m t lhs)
  unary : Looks false (n + slack .unary) (m + slack .unary) (unary n) (unary m)
  power : Looks false (n + slack .power) (m + slack .power) (power n) (power m)
  suffixes (target : Expr) : Looks false n m (suffixes n target) (suffixes m target)
  primary : Looks false (n + slack .primary) (m + slack .primary) (primary n) (primary m)
  items : Looks true (n - 1) (m - 1) (items n) (items m)
  moreItems : Looks true n m (moreItems n) (moreItems m)

/-- Where no nested readers are left on one side. -/
theorem looking_of_eq_zero {n m : Nat} (h : n = 0 ∨ m = 0) : Looking n m := by
  have hslack (t : Tier) := slack_le t
  exact {
    conditional := .of_lt (leaving n).conditional (by omega)
    binary := fun t => .of_lt ((leaving n).binary t) (by have := hslack t; omega)
    operand := fun t => .of_lt ((leaving n).operand t) (by have := hslack t; omega)
    operations := fun t lhs => .of_lt ((leaving n).operations t lhs) (by omega)
    unary := .of_lt (leaving n).unary (by simp only [slack]; omega)
    power := .of_lt (leaving n).power (by simp only [slack]; omega)
    suffixes := fun target => .of_lt ((leaving n).suffixes target) (by omega)
    primary := .of_lt (leaving n).primary (by simp only [slack]; omega)
    items := .of_lt (leaving n).items (by omega)
    moreItems := .of_lt (leaving n).moreItems (by omega) }

/-- Whoever reads a derivation of an expression takes a token. -/
theorem length_of_derived {l : Grammar.Level} {e : Expr} {ts r : Tokens}
    (h : ∃ d : Grammar.Derived l, d.tokens ++ r = ts ∧ d.term = e.term) : r.length + 1 ≤ ts.length := by
  obtain ⟨d, rfl, -⟩ := h
  have hd := length_tokens_pos d
  rw [List.length_append]
  omega

theorem length_of_suffixes (n : Nat) (target : Expr) (ts : Tokens) (e : Expr) (r : Tokens)
    (h : suffixes n target ts = .ok (e, r)) : r.length + 0 ≤ ts.length := by
  have hleaves := (leaving n).suffixes target ts
  rw [h] at hleaves
  exact List.IsSuffix.length_le hleaves

section

variable {n m : Nat} (ih : Looking n m)
include ih

theorem choice_looks (c : Expr) : Looks false n m (choice n c) (choice m c) := by
  refine .peek (.ok c []) fun t => ?_
  obtain ⟨t, s⟩ := t
  cases t with
  | question =>
    have hno (yes : Expr) : Looks false (n - 60) (m - 60) _ _ :=
      (ih.conditional.map fun no => Expr.conditional c yes no (c.span.union no.span)).mono (by omega) (by omega)
    have hcolon (yes : Expr) : Looks false (n - 40) (m - 40) _ _ :=
      .bind 1 (expect_looks .colon .colon) length_of_expect fun _ => hno yes
    have hyes : Looks false (n - 20) (m - 20) _ _ :=
      .bind 1 (ih.conditional.mono (by omega) (by omega)) (fun _ _ _ h => length_of_derived ((sound n).conditional h))
        hcolon
    exact ⟨_, _, .tail hyes, fun ts => ⟨rfl, rfl⟩⟩
  | _ => exact ⟨_, _, .ok c, fun ts => ⟨rfl, rfl⟩⟩

theorem conditional_looks : Looks false (n + 1) (m + 1) (conditional (n + 1)) (conditional (m + 1)) := by
  rw [conditional_succ, conditional_succ]
  refine .bind 1 (ih.binary .or) (fun _ _ _ h => length_of_derived ((sound n).binary h)) fun c => ?_
  exact (choice_looks ih c).mono (by omega) (by omega)

theorem binary_looks (t : Tier) : Looks false (n + 1 + slack (.tier t)) (m + 1 + slack (.tier t)) (binary (n + 1) t)
    (binary (m + 1) t) := by
  have hslack := slack_le t
  rw [binary_succ, binary_succ]
  refine .bind 1 ((ih.operand t).mono (by omega) (by omega)) (fun _ _ _ h => length_of_derived ((sound n).operand h))
    fun lhs => ?_
  exact (ih.operations t lhs).mono (by omega) (by omega)

theorem operand_looks (t : Tier) : Looks false (n + 1 + slack (.tier t) + 1) (m + 1 + slack (.tier t) + 1)
    (operand (n + 1) t) (operand (m + 1) t) := by
  cases t with
  | product => exact ih.unary
  | or => exact ih.binary .and
  | and => exact ih.binary .equality
  | equality => exact ih.binary .comparison
  | comparison => exact ih.binary .sum
  | sum => exact ih.binary .product

theorem operations_looks (t : Tier) (lhs : Expr) : Looks false (n + 1) (m + 1) (operations (n + 1) t lhs)
    (operations (m + 1) t lhs) := by
  refine .peek (.ok lhs []) fun sign => ?_
  cases hop : t.operator? sign.value with
  | none => exact ⟨_, _, .ok lhs, fun ts => by simp only [operations, hop, and_self]⟩
  | some op =>
    have hrest (rhs : Expr) : Looks false (n + 1 - 40) (m + 1 - 40) _ _ :=
      (ih.operations t (.ofBinary op lhs rhs)).mono (by omega) (by omega)
    have hrhs : Looks false (n + 1 - 20) (m + 1 - 20) _ _ :=
      .bind 1 ((ih.operand t).mono (by omega) (by omega)) (fun _ _ _ h => length_of_derived ((sound n).operand h)) hrest
    exact ⟨_, _, .tail hrhs, fun ts => by simp only [operations, hop, List.tail_cons, and_self]⟩

theorem unary_looks : Looks false (n + 1 + slack .unary) (m + 1 + slack .unary) (unary (n + 1)) (unary (m + 1)) := by
  have hnil : Leaves [] (unary (n + 1) []) := (leaving (n + 1)).unary []
  refine .peek hnil fun sign => ?_
  cases hop : sign? sign.value with
  | none => exact ⟨_, _, ih.power, fun ts => by simp only [unary, hop, and_self]⟩
  | some op =>
    have he : Looks false (n + 1 + 13 - 20) (m + 1 + 13 - 20) _ _ :=
      (ih.unary.map fun e => Expr.unary op e (sign.span.union e.span)).mono (by simp only [slack]; omega)
        (by simp only [slack]; omega)
    exact ⟨_, _, .tail he, fun ts => by simp only [unary, hop, List.tail_cons]; exact ⟨rfl, rfl⟩⟩

theorem exponent_looks (base : Expr) : Looks false n m (exponent n base) (exponent m base) := by
  refine .peek (.ok base []) fun t => ?_
  obtain ⟨t, s⟩ := t
  cases t with
  | caret =>
    have he : Looks false (n - 20) (m - 20) _ _ :=
      (ih.unary.map fun e => Expr.ofBinary .power base e).mono (by omega) (by omega)
    exact ⟨_, _, .tail he, fun ts => ⟨rfl, rfl⟩⟩
  | _ => exact ⟨_, _, .ok base, fun ts => ⟨rfl, rfl⟩⟩

theorem power_looks : Looks false (n + 1 + slack .power) (m + 1 + slack .power) (power (n + 1)) (power (m + 1)) := by
  have hsuffixes (base : Expr) : Looks false (n + 15 - 20) (m + 15 - 20) _ _ :=
    .bind 0 ((ih.suffixes base).mono (by omega) (by omega)) (length_of_suffixes n base)
      fun base => (exponent_looks ih base).mono (by omega) (by omega)
  rw [power_succ, power_succ]
  exact .bind 1 ih.primary (fun _ _ _ h => length_of_derived ((sound n).primary h)) hsuffixes

theorem named_looks (target : Expr) : Looks false n m (named n target) (named m target) := by
  refine .peek (.stopped .identifier []) fun t => ?_
  obtain ⟨t, s⟩ := t
  cases t with
  | name sigil word =>
    have hrest : Looks false (n - 20) (m - 20) _ _ :=
      (ih.suffixes (.member target ⟨Grammar.written sigil word, s⟩ (target.span.union s))).mono (by omega) (by omega)
    exact ⟨_, _, .tail hrest, fun ts => ⟨rfl, rfl⟩⟩
  | _ => exact ⟨_, _, .stopped .identifier, fun ts => ⟨rfl, rfl⟩⟩

theorem suffixes_looks (target : Expr) : Looks false (n + 1) (m + 1) (suffixes (n + 1) target)
    (suffixes (m + 1) target) := by
  refine .peek (.ok target []) fun t => ?_
  obtain ⟨t, s⟩ := t
  cases t with
  | leftBracket =>
    have hrest (i : Expr) (close : Span) : Looks false (n + 1 - 60) (m + 1 - 60) _ _ :=
      (ih.suffixes (.index target i (target.span.union close))).mono (by omega) (by omega)
    have hclose (i : Expr) : Looks false (n + 1 - 40) (m + 1 - 40) _ _ :=
      .bind 1 (expect_looks .rightBracket .closingBracket) length_of_expect (hrest i)
    have hindex : Looks false (n + 1 - 20) (m + 1 - 20) _ _ :=
      .bind 1 (ih.conditional.mono (by omega) (by omega)) (fun _ _ _ h => length_of_derived ((sound n).conditional h))
        hclose
    exact ⟨_, _, .tail hindex, fun ts => ⟨rfl, rfl⟩⟩
  | dot =>
    have hname : Looks false (n + 1 - 20) (m + 1 - 20) _ _ := (named_looks ih target).mono (by omega) (by omega)
    refine ⟨_, _, .tail hname, fun ts => ?_⟩
    rcases ts with _ | ⟨⟨t, s'⟩, ts⟩
    · exact ⟨rfl, rfl⟩
    · cases t <;> exact ⟨rfl, rfl⟩
  | _ => exact ⟨_, _, .ok target, fun ts => ⟨rfl, rfl⟩⟩

theorem called_looks (word : String) (span : Span) : Looks false (n - 4) (m - 4) (called n word span)
    (called m word span) := by
  refine .peek (.ok _ []) fun t => ?_
  obtain ⟨t, s⟩ := t
  cases t with
  | leftParen =>
    have hargs : Looks false (n - 4 - 20) (m - 4 - 20) _ _ :=
      (bracketed_looks ih.items .rightParen fun args close => Expr.call ⟨word, span⟩ args (span.union close)).mono
        (by omega) (by omega)
    exact ⟨_, _, .tail hargs, fun ts => ⟨rfl, rfl⟩⟩
  | _ => exact ⟨_, _, .ok (.variable word span), fun ts => ⟨rfl, rfl⟩⟩

theorem primary_looks : Looks false (n + 1 + slack .primary) (m + 1 + slack .primary) (primary (n + 1))
    (primary (m + 1)) := by
  refine .peek (.stopped .expression []) fun t => ?_
  obtain ⟨t, s⟩ := t
  cases t with
  | number x => exact ⟨_, _, .tail (.ok (.number x s)), fun ts => ⟨rfl, rfl⟩⟩
  | text x => exact ⟨_, _, .tail (.ok (.text x s)), fun ts => ⟨rfl, rfl⟩⟩
  | true => exact ⟨_, _, .tail (.ok (.bool true s)), fun ts => ⟨rfl, rfl⟩⟩
  | false => exact ⟨_, _, .tail (.ok (.bool false s)), fun ts => ⟨rfl, rfl⟩⟩
  | null => exact ⟨_, _, .tail (.ok (.null s)), fun ts => ⟨rfl, rfl⟩⟩
  | name sigil word =>
    cases sigil with
    | true => exact ⟨_, _, .tail (.ok (.variable word s)), fun ts => by cases ts <;> exact ⟨rfl, rfl⟩⟩
    | false =>
      have hcalled : Looks false (n + 1 + 15 - 20) (m + 1 + 15 - 20) _ _ :=
        (called_looks ih word s).mono (by omega) (by omega)
      refine ⟨_, _, .tail hcalled, fun ts => ?_⟩
      rcases ts with _ | ⟨⟨t, s'⟩, ts⟩
      · exact ⟨rfl, rfl⟩
      · cases t <;> exact ⟨rfl, rfl⟩
  | leftParen =>
    have hclose (e : Expr) : Looks false (n + 1 + 15 - 40) (m + 1 + 15 - 40) _ _ :=
      .map (expect_looks .rightParen .closingParen) fun close => e.withSpan (s.union close)
    have hinner : Looks false (n + 1 + 15 - 20) (m + 1 + 15 - 20) _ _ :=
      .bind 1 (ih.conditional.mono (by omega) (by omega)) (fun _ _ _ h => length_of_derived ((sound n).conditional h))
        hclose
    exact ⟨_, _, .tail hinner, fun ts => ⟨rfl, rfl⟩⟩
  | leftBracket =>
    have hitems : Looks false (n + 1 + 15 - 20) (m + 1 + 15 - 20) _ _ :=
      (bracketed_looks ih.items .rightBracket fun es close => Expr.list es (s.union close)).mono (by omega) (by omega)
    exact ⟨_, _, .tail hitems, fun ts => ⟨rfl, rfl⟩⟩
  | _ => exact ⟨_, _, .stopped .expression, fun ts => ⟨rfl, rfl⟩⟩

/-- An item and those behind it. -/
theorem anotherItem_looks : Looks true n m (fun ts => conditional n ts >>= fun p => moreItems n p.2 >>= fun q => .ok (p.1 :: q.1, q.2))
    fun ts => conditional m ts >>= fun p => moreItems m p.2 >>= fun q => .ok (p.1 :: q.1, q.2) :=
  .bind 1 ih.conditional (fun _ _ _ h => length_of_derived ((sound n).conditional h)) fun e =>
    (ih.moreItems.map fun es => e :: es).mono (by omega) (by omega)

theorem items_looks : Looks true (n + 1 - 1) (m + 1 - 1) (items (n + 1)) (items (m + 1)) := by
  refine .peek (.ok [] []) fun t => ?_
  cases ht : t.value.opensExpression with
  | true => exact ⟨_, _, anotherItem_looks ih, fun ts => by simp only [items, opens, ht]; exact ⟨rfl, rfl⟩⟩
  | false => exact ⟨_, _, .ok [], fun ts => by simp [items, opens, ht]⟩

/-- Behind a comma the next token says whether another item begins; a list that ends at the
    comma leaves both. -/
theorem moreItems_looks : Looks true (n + 1) (m + 1) (moreItems (n + 1)) (moreItems (m + 1)) := by
  refine ⟨(leaving (n + 1)).moreItems, fun a x y hx hy => ?_⟩
  have hleaves := (leaving (n + 1)).moreItems
  match a with
  | [] => exact agree_of_leaves (hleaves x)
  | ⟨t, s⟩ :: a =>
    simp only [List.cons_append, List.length_cons] at hx hy ⊢
    cases t with
    | comma =>
      match a with
      | [] =>
        -- the token behind the comma is in `x`: nothing stops before it but the comma itself
        cases hopens : opens x with
        | true =>
          have hbehind := (anotherItem_looks ih).leaves x
          simp only [List.nil_append, moreItems, hopens]
          exact agree_of_leaves hbehind
        | false =>
          simp only [List.nil_append, moreItems, hopens]
          intro k hk hsettles
          obtain rfl : [⟨.comma, s⟩] = k := List.append_cancel_right hk
          exact absurd rfl (hsettles.ne_comma rfl s)
      | t' :: a =>
        cases hopens : t'.value.opensExpression with
        | true =>
          simp only [List.cons_append, moreItems, opens, hopens]
          exact (anotherItem_looks ih).agree (t' :: a) x y (by omega) (by omega)
        | false =>
          simp only [List.cons_append, moreItems, opens, hopens]
          intro k hk hsettles
          obtain rfl : ⟨.comma, s⟩ :: t' :: a = k := List.append_cancel_right hk
          rfl
    | _ =>
      intro k hk hsettles
      obtain rfl := List.append_cancel_right (show _ :: a ++ x = k ++ x from hk)
      rfl

end

theorem looking (n m : Nat) : Looking n m := by
  induction n generalizing m with
  | zero => exact looking_of_eq_zero (.inl rfl)
  | succ n ih =>
    cases m with
    | zero => exact looking_of_eq_zero (.inr rfl)
    | succ m =>
      exact {
        conditional := conditional_looks (ih m)
        binary := binary_looks (ih m)
        operand := operand_looks (ih m)
        operations := operations_looks (ih m)
        unary := unary_looks (ih m)
        power := power_looks (ih m)
        suffixes := suffixes_looks (ih m)
        primary := primary_looks (ih m)
        items := items_looks (ih m)
        moreItems := moreItems_looks (ih m) }

end Sketchwork.Parser
