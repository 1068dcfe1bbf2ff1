/-
  Sketchwork.Proofs.Expr.Parsing — the parser of expressions decides its grammar.

  Proved: a list of tokens is read as an expression exactly when it has a derivation; the
  derivation is the only one, and the expression read, without its ranges, is the one that
  the derivation stands for (`expression_eq_ok_iff_derivation`). So no token is lost,
  doubled, moved or grouped otherwise than the grammar says.
-/
import Sketchwork.Proofs.Expr.Unambiguity

namespace Sketchwork.Grammar

theorem expression_eq_ok_iff {whole : Span} {ts : Tokens} {e : Expr} :
    Parser.expression whole ts = .ok e ↔ Parser.conditional (Parser.depthBound ts) ts = .ok (e, []) := by
  unfold Parser.expression
  split <;> rename_i h <;> rw [h] <;> simp

/-- The expression read from some tokens is the tree of their derivation. -/
theorem expression_eq_ok_iff_tree {whole : Span} {ts : Tokens} {e : Expr} :
    Parser.expression whole ts = .ok e ↔ ∃ d : Derived .conditional, d.tokens = ts ∧ d.tree = e := by
  have hread (d : Derived .conditional) : Parser.expression whole d.tokens = .ok d.tree := by
    have h := reads_tree d (Parser.depthBound d.tokens) [] (follows_nil _) (by simp only [Parser.depthBound]; omega)
    exact expression_eq_ok_iff.mpr (by simpa [read] using h)
  constructor
  · intro h
    obtain ⟨d, hd, -⟩ := (sound _).conditional (expression_eq_ok_iff.mp h)
    obtain rfl : d.tokens = ts := by simpa using hd
    exact ⟨d, rfl, Except.ok.inj ((hread d).symm.trans h)⟩
  · rintro ⟨d, rfl, rfl⟩
    exact hread d

/-- Tokens spell an expression exactly when they have a derivation, and they have at most one. -/
theorem expression_eq_ok_iff_derivation (whole : Span) (ts : Tokens) (t : Term) :
    ((∃ e, Parser.expression whole ts = .ok e ∧ e.term = t) ↔ ∃ d : Derived .conditional, d.tokens = ts ∧ d.term = t) ∧
      ∀ d d' : Derived .conditional, d.tokens = ts → d'.tokens = ts → d = d' := by
  refine ⟨⟨?_, ?_⟩, fun d d' h h' => unambiguous (h.trans h'.symm)⟩
  · rintro ⟨e, h, rfl⟩
    obtain ⟨d, hd, ht⟩ := (sound _).conditional (expression_eq_ok_iff.mp h)
    exact ⟨d, by simpa using hd, ht⟩
  · rintro ⟨d, rfl, rfl⟩
    obtain ⟨e, he, ht⟩ := reads d (Parser.depthBound d.tokens) [] (follows_nil _)
      (by simp only [Parser.depthBound]; omega)
    exact ⟨e, expression_eq_ok_iff.mpr (by simpa [read] using he), ht⟩

end Sketchwork.Grammar
