/-
  Sketchwork.Proofs.Expr.Soundness — what the readers of expressions return was derived.

  `Sound n` says of every reader with `n` nested readers left that the tokens it took are
  spelled by a derivation of its phrase that stands for what it returned; a reader that goes
  on from an expression goes on with the derivation of that expression. Each reader keeps
  this, so it holds at every depth (`sound`).
-/
import Sketchwork.Proofs.Expr.Grammar
import Sketchwork.Proofs.Results

namespace Sketchwork

namespace Grammar

open Sketchwork.Parser (Tier)

/-! ## Tables -/

theorem joins_of_operator? {t : Tier} {token : Token} {op : BinaryOp} (h : t.operator? token = some op) :
    Joins t token op := by
  cases t <;> cases token <;> cases h <;> constructor

theorem signs_of_sign? {token : Token} {op : UnaryOp} (h : Parser.sign? token = some op) : Signs token op := by
  cases token <;> cases h <;> constructor

/-- The tokens that the readers ask for by name. -/
def Punctuation (t : Token) : Prop :=
  t = .colon ∨ t = .rightParen ∨ t = .rightBracket

theorem eq_of_expect {t : Token} (ht : Punctuation t) {expected : Expected} {ts r : Tokens} {s : Span}
    (h : Parser.expect t expected ts = .ok (s, r)) : ts = ⟨t, s⟩ :: r := by
  match ts with
  | [] => cases h
  | ⟨t', s'⟩ :: ts =>
    simp only [Parser.expect] at h
    split at h
    · rename_i he
      have : t' = t := by
        rcases ht with rfl | rfl | rfl <;> cases t' <;> first | rfl | cases he
      cases h
      rw [this]
    · cases h

/-! ## The invariant -/

/-- The readers, `n` deep, return what a derivation stands for and leave the tokens behind it. -/
structure Sound (n : Nat) : Prop where
  conditional {ts r : Tokens} {e : Expr} (h : Parser.conditional n ts = .ok (e, r)) :
    ∃ d : Derived .conditional, d.tokens ++ r = ts ∧ d.term = e.term
  binary {t : Tier} {ts r : Tokens} {e : Expr} (h : Parser.binary n t ts = .ok (e, r)) :
    ∃ d : Derived (.tier t), d.tokens ++ r = ts ∧ d.term = e.term
  operand {t : Tier} {ts r : Tokens} {e : Expr} (h : Parser.operand n t ts = .ok (e, r)) :
    ∃ d : Derived (operand t), d.tokens ++ r = ts ∧ d.term = e.term
  operations {t : Tier} {lhs e : Expr} {ts r : Tokens} (h : Parser.operations n t lhs ts = .ok (e, r))
      (a : Derived (.tier t)) (ha : a.term = lhs.term) :
    ∃ d : Derived (.tier t), d.tokens ++ r = a.tokens ++ ts ∧ d.term = e.term
  unary {ts r : Tokens} {e : Expr} (h : Parser.unary n ts = .ok (e, r)) :
    ∃ d : Derived .unary, d.tokens ++ r = ts ∧ d.term = e.term
  power {ts r : Tokens} {e : Expr} (h : Parser.power n ts = .ok (e, r)) :
    ∃ d : Derived .power, d.tokens ++ r = ts ∧ d.term = e.term
  suffixes {target e : Expr} {ts r : Tokens} (h : Parser.suffixes n target ts = .ok (e, r))
      (a : Derived .suffixed) (ha : a.term = target.term) :
    ∃ d : Derived .suffixed, d.tokens ++ r = a.tokens ++ ts ∧ d.term = e.term
  primary {ts r : Tokens} {e : Expr} (h : Parser.primary n ts = .ok (e, r)) :
    ∃ d : Derived .primary, d.tokens ++ r = ts ∧ d.term = e.term
  items {ts r : Tokens} {es : List Expr} (h : Parser.items n ts = .ok (es, r)) :
    ∃ d : Derivation .arguments, d.tokens ++ r = ts ∧ d.term = Expr.terms es
  moreItems {ts r : Tokens} {es : List Expr} (h : Parser.moreItems n ts = .ok (es, r))
      (a : Derived .conditional) :
    ∃ d : Derivation .items, d.tokens ++ r = a.tokens ++ ts ∧ d.term = a.term :: Expr.terms es

theorem sound_zero : Sound 0 := by
  constructor <;> nofun

section

variable {n : Nat} (ih : Sound n) {ts r : Tokens} {e : Expr}
include ih

theorem conditional_sound (h : Parser.conditional (n + 1) ts = .ok (e, r)) :
    ∃ d : Derived .conditional, d.tokens ++ r = ts ∧ d.term = e.term := by
  obtain ⟨⟨c, ts'⟩, hc, h₁⟩ := exists_of_bind_eq_ok h
  obtain ⟨dc, rfl, ec⟩ := ih.binary hc
  dsimp only at h₁
  split at h₁
  · rename_i q ts'
    obtain ⟨⟨yes, ts'⟩, hy, h₂⟩ := exists_of_bind_eq_ok h₁
    obtain ⟨⟨k, ts'⟩, hk, h₃⟩ := exists_of_bind_eq_ok h₂
    obtain ⟨⟨no, ts'⟩, hn, h₄⟩ := exists_of_bind_eq_ok h₃
    obtain ⟨dy, rfl, ey⟩ := ih.conditional hy
    obtain rfl := eq_of_expect (.inl rfl) hk
    obtain ⟨dn, rfl, en⟩ := ih.conditional hn
    cases h₄
    exact ⟨.choice dc q dy k dn, by simp, by simp [ec, ey, en]⟩
  · cases h₁
    exact ⟨.plain dc, rfl, ec⟩

theorem binary_sound {t : Tier} (h : Parser.binary (n + 1) t ts = .ok (e, r)) :
    ∃ d : Derived (.tier t), d.tokens ++ r = ts ∧ d.term = e.term := by
  obtain ⟨⟨lhs, ts'⟩, hl, h₁⟩ := exists_of_bind_eq_ok h
  obtain ⟨dl, rfl, el⟩ := ih.operand hl
  exact ih.operations h₁ (.single dl) el

theorem operand_sound {t : Tier} (h : Parser.operand (n + 1) t ts = .ok (e, r)) :
    ∃ d : Derived (operand t), d.tokens ++ r = ts ∧ d.term = e.term := by
  cases t <;> first | exact ih.binary h | exact ih.unary h

theorem operations_sound {t : Tier} {lhs : Expr} (h : Parser.operations (n + 1) t lhs ts = .ok (e, r))
    (a : Derived (.tier t)) (ha : a.term = lhs.term) :
    ∃ d : Derived (.tier t), d.tokens ++ r = a.tokens ++ ts ∧ d.term = e.term := by
  unfold Parser.operations at h
  split at h
  · cases h
    exact ⟨a, rfl, ha⟩
  · rename_i sign rest
    split at h
    · cases h
      exact ⟨a, rfl, ha⟩
    · rename_i op hop
      obtain ⟨⟨rhs, ts'⟩, hr, h₁⟩ := exists_of_bind_eq_ok h
      obtain ⟨dr, rfl, er⟩ := ih.operand hr
      obtain ⟨d, hd, ed⟩ := ih.operations h₁ (.operation a sign (joins_of_operator? hop) dr)
        (by simp [ha, er])
      exact ⟨d, by simpa using hd, ed⟩

theorem unary_sound (h : Parser.unary (n + 1) ts = .ok (e, r)) :
    ∃ d : Derived .unary, d.tokens ++ r = ts ∧ d.term = e.term := by
  have unsigned {ts : Tokens} (h : Parser.power n ts = .ok (e, r)) :
      ∃ d : Derived .unary, d.tokens ++ r = ts ∧ d.term = e.term := by
    obtain ⟨d, hd, ed⟩ := ih.power h
    exact ⟨.unsigned d, hd, ed⟩
  unfold Parser.unary at h
  split at h
  · exact unsigned h
  · rename_i sign rest
    split at h
    · exact unsigned h
    · rename_i op hop
      obtain ⟨⟨e', ts'⟩, he, h₁⟩ := exists_of_bind_eq_ok h
      obtain ⟨d, rfl, ed⟩ := ih.unary he
      cases h₁
      exact ⟨.signed sign (signs_of_sign? hop) d, rfl, by simp [ed]⟩

theorem power_sound (h : Parser.power (n + 1) ts = .ok (e, r)) :
    ∃ d : Derived .power, d.tokens ++ r = ts ∧ d.term = e.term := by
  obtain ⟨⟨p, ts'⟩, hp, h₁⟩ := exists_of_bind_eq_ok h
  obtain ⟨⟨base, ts''⟩, hb, h₂⟩ := exists_of_bind_eq_ok h₁
  obtain ⟨dp, rfl, ep⟩ := ih.primary hp
  obtain ⟨db, hd, eb⟩ := ih.suffixes hb (.unsuffixed dp) ep
  dsimp only at h₂
  split at h₂
  · rename_i caret ts'
    obtain ⟨⟨x, ts'⟩, hx, h₃⟩ := exists_of_bind_eq_ok h₂
    obtain ⟨dx, rfl, ex⟩ := ih.unary hx
    cases h₃
    exact ⟨.raised db caret dx, by simpa using hd, by simp [eb, ex]⟩
  · cases h₂
    exact ⟨.unraised db, hd, eb⟩

theorem suffixes_sound {target : Expr} (h : Parser.suffixes (n + 1) target ts = .ok (e, r)) (a : Derived .suffixed)
    (ha : a.term = target.term) : ∃ d : Derived .suffixed, d.tokens ++ r = a.tokens ++ ts ∧ d.term = e.term := by
  unfold Parser.suffixes at h
  split at h
  · rename_i opening ts
    obtain ⟨⟨i, ts'⟩, hi, h₁⟩ := exists_of_bind_eq_ok h
    obtain ⟨⟨closing, ts''⟩, hc, h₂⟩ := exists_of_bind_eq_ok h₁
    obtain ⟨di, rfl, ei⟩ := ih.conditional hi
    obtain rfl := eq_of_expect (.inr (.inr rfl)) hc
    obtain ⟨d, hd, ed⟩ := ih.suffixes h₂ (.indexed a opening di closing) (by simp [ha, ei])
    exact ⟨d, by simpa using hd, ed⟩
  · rename_i dot sigil word span ts
    obtain ⟨d, hd, ed⟩ := ih.suffixes h (.member a dot sigil word span)
      (by simp [written, ha])
    exact ⟨d, by simpa using hd, ed⟩
  · cases h
  · cases h
    exact ⟨a, rfl, ha⟩

theorem primary_sound (h : Parser.primary (n + 1) ts = .ok (e, r)) :
    ∃ d : Derived .primary, d.tokens ++ r = ts ∧ d.term = e.term := by
  unfold Parser.primary at h
  split at h
  · rename_i x span _
    cases h
    exact ⟨.literal ⟨.number x, span⟩ (.number x), rfl, rfl⟩
  · rename_i s span _
    cases h
    exact ⟨.literal ⟨.text s, span⟩ (.text s), rfl, rfl⟩
  · rename_i span _
    cases h
    exact ⟨.literal ⟨.true, span⟩ .true, rfl, rfl⟩
  · rename_i span _
    cases h
    exact ⟨.literal ⟨.false, span⟩ .false, rfl, rfl⟩
  · rename_i span _
    cases h
    exact ⟨.literal ⟨.null, span⟩ .null, rfl, rfl⟩
  · rename_i word span opening ts
    obtain ⟨⟨args, ts'⟩, ha, h₁⟩ := exists_of_bind_eq_ok h
    obtain ⟨⟨closing, ts''⟩, hc, h₂⟩ := exists_of_bind_eq_ok h₁
    obtain ⟨da, rfl, ea⟩ := ih.items ha
    obtain rfl := eq_of_expect (.inr (.inl rfl)) hc
    cases h₂
    exact ⟨.call word span opening da closing, by simp, by simp [ea]⟩
  · rename_i sigil word span _ _
    cases h
    exact ⟨.name sigil word span, rfl, rfl⟩
  · rename_i opening ts
    obtain ⟨⟨e', ts'⟩, he, h₁⟩ := exists_of_bind_eq_ok h
    obtain ⟨⟨closing, ts''⟩, hc, h₂⟩ := exists_of_bind_eq_ok h₁
    obtain ⟨d, rfl, ed⟩ := ih.conditional he
    obtain rfl := eq_of_expect (.inr (.inl rfl)) hc
    cases h₂
    exact ⟨.grouped opening d closing, by simp, by simp [ed]⟩
  · rename_i opening ts
    obtain ⟨⟨es, ts'⟩, he, h₁⟩ := exists_of_bind_eq_ok h
    obtain ⟨⟨closing, ts''⟩, hc, h₂⟩ := exists_of_bind_eq_ok h₁
    obtain ⟨d, rfl, ed⟩ := ih.items he
    obtain rfl := eq_of_expect (.inr (.inr rfl)) hc
    cases h₂
    exact ⟨.list opening d closing, by simp, by simp [ed]⟩
  · cases h

theorem items_sound {es : List Expr} (h : Parser.items (n + 1) ts = .ok (es, r)) :
    ∃ d : Derivation .arguments, d.tokens ++ r = ts ∧ d.term = Expr.terms es := by
  unfold Parser.items at h
  split at h
  · obtain ⟨⟨e, ts'⟩, he, h₁⟩ := exists_of_bind_eq_ok h
    obtain ⟨⟨es', ts''⟩, hm, h₂⟩ := exists_of_bind_eq_ok h₁
    obtain ⟨d, rfl, ed⟩ := ih.conditional he
    obtain ⟨items, hi, ei⟩ := ih.moreItems hm d
    cases h₂
    exact ⟨.some items, hi, by simp [ei, ed]⟩
  · cases h
    exact ⟨.none, rfl, rfl⟩

theorem moreItems_sound {es : List Expr} (h : Parser.moreItems (n + 1) ts = .ok (es, r)) (a : Derived .conditional) :
    ∃ d : Derivation .items, d.tokens ++ r = a.tokens ++ ts ∧ d.term = a.term :: Expr.terms es := by
  unfold Parser.moreItems at h
  split at h
  · rename_i comma rest
    split at h
    · obtain ⟨⟨e, ts'⟩, he, h₁⟩ := exists_of_bind_eq_ok h
      obtain ⟨⟨es', ts''⟩, hm, h₂⟩ := exists_of_bind_eq_ok h₁
      obtain ⟨d, rfl, ed⟩ := ih.conditional he
      obtain ⟨items, hi, ei⟩ := ih.moreItems hm d
      cases h₂
      exact ⟨.more a comma items, by simp [hi], by simp [ei, ed]⟩
    · cases h
      exact ⟨.last a, rfl, rfl⟩
  · cases h
    exact ⟨.last a, rfl, rfl⟩

end

theorem sound (n : Nat) : Sound n := by
  induction n with
  | zero => exact sound_zero
  | succ n ih =>
    exact {
      conditional := conditional_sound ih
      binary := binary_sound ih
      operand := operand_sound ih
      operations := operations_sound ih
      unary := unary_sound ih
      power := power_sound ih
      suffixes := suffixes_sound ih
      primary := primary_sound ih
      items := items_sound ih
      moreItems := moreItems_sound ih }

end Grammar

end Sketchwork
