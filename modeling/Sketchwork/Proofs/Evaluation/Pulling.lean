/-
  Sketchwork.Proofs.Evaluation.Pulling — giving a part of an expression a name.

  A part is pulled out when a variable stands in some of its places. The parts that stay are the
  same up to the ranges of text they were read from, which evaluation does not see
  (`Expr.eval_eq_of_term_eq`); and it goes through an expression in the same way whether a value
  is found by looking it up or by evaluating the part, so `and`, `or` and branches that are not
  taken need no care.

  Proved: where the variable is bound to the value of the part, an expression and an argument
  evaluate as before, to the same value or the same error (`Expr.eval_of_pulls`,
  `Arg.eval_of_pulls`).
-/
import Mathlib.Data.List.Forall2
import Sketchwork.Proofs.Evaluation.Names
import Sketchwork.Proofs.Expr.Grammar

namespace Sketchwork

/-! ## Ranges of text -/

namespace Term

mutual

/-- An expression of the term, all of it at the start of the text. -/
def expr : Term → Expr
  | .null => .null (.point 0)
  | .bool b => .bool b (.point 0)
  | .number x => .number x (.point 0)
  | .text s => .text s (.point 0)
  | .variable name => .variable name (.point 0)
  | .list items => .list (exprs items) (.point 0)
  | .unary op t => .unary op (expr t) (.point 0)
  | .binary op a b => .binary op (expr a) (expr b) (.point 0)
  | .conditional c a b => .conditional (expr c) (expr a) (expr b) (.point 0)
  | .call f args => .call ⟨f, .point 0⟩ (exprs args) (.point 0)
  | .index t i => .index (expr t) (expr i) (.point 0)
  | .member t name => .member (expr t) ⟨name, .point 0⟩ (.point 0)

def exprs : List Term → List Expr
  | [] => []
  | t :: ts => expr t :: exprs ts

end

end Term

namespace Expr

variable {scope : Scope}

mutual

theorem eval_expr_term : ∀ e : Expr, e.term.expr.eval scope = e.eval scope
  | .null _ | .bool _ _ | .number _ _ | .text _ _ | .variable _ _ => rfl
  | .list items _ => by rw [term, Term.expr, eval, eval, evalAll_exprs_terms items]
  | .unary op e _ => by rw [term, Term.expr, eval, eval, eval_expr_term e]
  | .binary op a b _ => by rw [term, Term.expr, eval, eval, eval_expr_term a, eval_expr_term b]
  | .conditional c a b _ => by
    rw [term, Term.expr, eval, eval, eval_expr_term c, eval_expr_term a, eval_expr_term b]
  | .call f args _ => by rw [term, Term.expr, eval, eval, evalNumbers_exprs_terms f.value args]
  | .index e i _ => by rw [term, Term.expr, eval, eval, eval_expr_term e, eval_expr_term i]
  | .member e name _ => by rw [term, Term.expr, eval, eval, eval_expr_term e]

theorem evalAll_exprs_terms : ∀ items : List Expr, evalAll scope (Term.exprs (terms items)) = evalAll scope items
  | [] => rfl
  | e :: es => by rw [terms, Term.exprs, evalAll, evalAll, eval_expr_term e, evalAll_exprs_terms es]

theorem evalNumbers_exprs_terms (function : String) : ∀ items : List Expr,
    evalNumbers scope function (Term.exprs (terms items)) = evalNumbers scope function items
  | [] => rfl
  | e :: es => by
    rw [terms, Term.exprs, evalNumbers, evalNumbers, eval_expr_term e, evalNumbers_exprs_terms function es]

end

theorem eval_eq_of_term_eq {e d : Expr} (h : e.term = d.term) : e.eval scope = d.eval scope := by
  rw [← eval_expr_term e, h, eval_expr_term d]

/-! ## Expressions -/

/-- The second expression is the first with the variable in some of the places of the part. -/
inductive Pulls (d : Expr) (x : String) : Expr → Expr → Prop
  | here {e : Expr} {span : Span} (h : e.term = d.term) : Pulls d x e (.variable x span)
  | null {span span' : Span} : Pulls d x (.null span) (.null span')
  | bool {b : Bool} {span span' : Span} : Pulls d x (.bool b span) (.bool b span')
  | number {n : Float} {span span' : Span} : Pulls d x (.number n span) (.number n span')
  | text {s : String} {span span' : Span} : Pulls d x (.text s span) (.text s span')
  | other {name : String} {span span' : Span} : Pulls d x (.variable name span) (.variable name span')
  | list {items items' : List Expr} {span span' : Span} (length : items.length = items'.length)
      (h : ∀ {e e'}, (e, e') ∈ items.zip items' → Pulls d x e e') : Pulls d x (.list items span) (.list items' span')
  | unary {op : UnaryOp} {e e' : Expr} {span span' : Span} (h : Pulls d x e e') :
      Pulls d x (.unary op e span) (.unary op e' span')
  | binary {op : BinaryOp} {a a' b b' : Expr} {span span' : Span} (ha : Pulls d x a a') (hb : Pulls d x b b') :
      Pulls d x (.binary op a b span) (.binary op a' b' span')
  | conditional {c c' a a' b b' : Expr} {span span' : Span} (hc : Pulls d x c c') (ha : Pulls d x a a')
      (hb : Pulls d x b b') : Pulls d x (.conditional c a b span) (.conditional c' a' b' span')
  | call {f f' : Spanned String} {args args' : List Expr} {span span' : Span} (hf : f.value = f'.value)
      (length : args.length = args'.length) (h : ∀ {e e'}, (e, e') ∈ args.zip args' → Pulls d x e e') :
      Pulls d x (.call f args span) (.call f' args' span')
  | index {e e' i i' : Expr} {span span' : Span} (he : Pulls d x e e') (hi : Pulls d x i i') :
      Pulls d x (.index e i span) (.index e' i' span')
  | member {e e' : Expr} {name name' : Spanned String} {span span' : Span} (hname : name.value = name'.value)
      (h : Pulls d x e e') : Pulls d x (.member e name span) (.member e' name' span')

end Expr

namespace Expr

variable {scope : Scope} {d e e' : Expr} {x : String} {v : Value}

theorem evalAll_congr {scope scope' : Scope} {items items' : List Expr}
    (h : List.Forall₂ (fun e e' : Expr => e'.eval scope' = e.eval scope) items items') :
    evalAll scope' items' = evalAll scope items := by
  rw [evalAll_eq_mapM, evalAll_eq_mapM, mapM_congr h]

theorem evalNumbers_congr {scope scope' : Scope} (function : String) {items items' : List Expr}
    (h : List.Forall₂ (fun e e' : Expr => e'.eval scope' = e.eval scope) items items') :
    evalNumbers scope' function items' = evalNumbers scope function items := by
  rw [evalNumbers_eq_mapM, evalNumbers_eq_mapM]
  exact mapM_congr (h.imp fun _ _ he => by rw [he])

theorem not_mem_names_of_zip {items items' : List Expr} (hx : x ∉ allNames items) (h : (e, e') ∈ items.zip items') :
    x ∉ e.names :=
  fun he => hx (mem_allNames.mpr ⟨e, (List.of_mem_zip h).1, he⟩)

/-- A part that is pulled out is not missed. -/
theorem eval_of_pulls (h : Pulls d x e e') (hx : x ∉ e.names) (hd : d.eval scope = .ok v) :
    e'.eval (scope.bind x v) = e.eval scope := by
  induction h with
  | here h => rw [eval_eq_of_term_eq h, hd, eval, Scope.lookup_bind_self]
  | null | bool | number | text => rfl
  | other => rw [eval, eval, Scope.lookup_bind_of_ne fun h => hx (List.mem_singleton.mpr h.symm)]
  | list length _ ih =>
    rw [eval, eval, evalAll_congr (List.forall₂_iff_zip.mpr ⟨length, fun h => ih h (not_mem_names_of_zip hx h)⟩)]
  | unary _ ih => rw [eval, eval, ih hx]
  | binary _ _ iha ihb =>
    simp only [names, List.mem_append, not_or] at hx
    rw [eval, eval, iha hx.1, ihb hx.2]
  | conditional _ _ _ ihc iha ihb =>
    simp only [names, List.mem_append, not_or] at hx
    rw [eval, eval, ihc hx.1, iha hx.2.1, ihb hx.2.2]
  | call hf length _ ih =>
    rw [eval, eval, hf,
      evalNumbers_congr _ (List.forall₂_iff_zip.mpr ⟨length, fun h => ih h (not_mem_names_of_zip hx h)⟩)]
  | index _ _ ihe ihi =>
    simp only [names, List.mem_append, not_or] at hx
    rw [eval, eval, ihe hx.1, ihi hx.2]
  | member hname _ ih => rw [eval, eval, ih hx, hname]

end Expr

/-! ## Arguments -/

namespace Arg

/-- The second argument is the first with the variable in some of the places of the part. -/
inductive Pulls (d : Expr) (x : String) : Arg → Arg → Prop
  | literal {l : Literal} : Pulls d x (.literal l) (.literal l)
  | expr {e e' : Expr} (h : Expr.Pulls d x e e') : Pulls d x (.expr e) (.expr e')
  | list {items items' : List Arg} (length : items.length = items'.length)
      (h : ∀ {a a'}, (a, a') ∈ items.zip items' → Pulls d x a a') : Pulls d x (.list items) (.list items')
  | map {entries entries' : List (String × Arg)} (length : entries.length = entries'.length)
      (keys : ∀ {p p'}, (p, p') ∈ entries.zip entries' → p.1 = p'.1)
      (h : ∀ {p p'}, (p, p') ∈ entries.zip entries' → Pulls d x p.2 p'.2) : Pulls d x (.map entries) (.map entries')

variable {scope scope' : Scope} {d : Expr} {a a' : Arg} {x : String} {v : Value}

theorem evalAll_congr {items items' : List Arg}
    (h : List.Forall₂ (fun a a' : Arg => a'.eval scope' = a.eval scope) items items') :
    evalAll scope' items' = evalAll scope items := by
  rw [evalAll_eq_mapM, evalAll_eq_mapM, mapM_congr h]

theorem evalEntries_congr {entries entries' : List (String × Arg)}
    (h : List.Forall₂ (fun p p' : String × Arg => p.1 = p'.1 ∧ p'.2.eval scope' = p.2.eval scope) entries entries') :
    evalEntries scope' entries' = evalEntries scope entries := by
  rw [evalEntries_eq_mapM, evalEntries_eq_mapM]
  exact mapM_congr (h.imp fun _ _ ⟨hkey, hvalue⟩ => by rw [hkey, hvalue])

theorem eval_of_pulls (h : Pulls d x a a') (hx : x ∉ a.names) (hd : d.eval scope = .ok v) :
    a'.eval (scope.bind x v) = a.eval scope := by
  induction h with
  | literal => rfl
  | expr h => exact Expr.eval_of_pulls h hx hd
  | list length _ ih =>
    rw [eval, eval, evalAll_congr (List.forall₂_iff_zip.mpr ⟨length, fun h => ih h fun hmem => ?_⟩)]
    exact hx (mem_allNames.mpr ⟨_, (List.of_mem_zip h).1, hmem⟩)
  | map length keys _ ih =>
    rw [eval, eval, evalEntries_congr (List.forall₂_iff_zip.mpr ⟨length, fun h => ⟨keys h, ih h fun hmem => ?_⟩⟩)]
    exact hx (mem_entryNames.mpr ⟨_, (List.of_mem_zip h).1, hmem⟩)

end Arg

end Sketchwork
