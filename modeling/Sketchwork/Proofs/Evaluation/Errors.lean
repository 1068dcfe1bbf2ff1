/-
  Sketchwork.Proofs.Evaluation.Errors — expressions and arguments never fail as calls do.

  Only calls of features report that a name is unknown or that calls nest too deep. Everything
  that calls none is `CallFree`: it may fail, but not with one of these errors. What sees only
  values is `Nameless`: it does not report that a variable is unbound either.

  Proved: operators and members are nameless (`Value.nameless_binary` and its like), and the
  values of expressions and arguments are call free (`Expr.callFree_eval`, `Arg.callFree_eval`).
-/
import Sketchwork.Evaluation.Expr

namespace Sketchwork

/-- The errors that a call of a feature fails with before its body runs. -/
def Error.isOfCall : Error → Bool
  | .unknownFeature _ | .recursionLimit _ => true
  | _ => false

def CallFree {α : Type} (x : Except Error α) : Prop :=
  ∀ e, x = .error e → e.isOfCall = false

namespace CallFree

variable {α β : Type} {x : Except Error α}

theorem ok (a : α) : CallFree (.ok a) := nofun

theorem error {e : Error} (h : e.isOfCall = false) : CallFree (.error e : Except Error α) := by
  rintro _ ⟨⟩
  exact h

theorem bind {f : α → Except Error β} (hx : CallFree x) (hf : ∀ a, CallFree (f a)) : CallFree (x >>= f) := by
  intro e h
  cases x with
  | error e' => cases h; exact hx _ rfl
  | ok a => exact hf a e h

theorem map (f : α → β) (hx : CallFree x) : CallFree (f <$> x) := by
  cases x with
  | error e => exact error (hx e rfl)
  | ok a => exact ok _

theorem ite {c : Prop} [Decidable c] {y : Except Error α} (hx : CallFree x) (hy : CallFree y) :
    CallFree (if c then x else y) := by
  split
  · exact hx
  · exact hy

theorem mapM {f : β → Except Error α} (hf : ∀ b, CallFree (f b)) (bs : List β) : CallFree (bs.mapM f) := by
  induction bs with
  | nil => exact ok _
  | cons b bs ih =>
    rw [List.mapM_cons]
    exact (hf b).bind fun _ => ih.bind fun _ => ok _

theorem foldlM {f : α → β → Except Error α} (hf : ∀ a b, CallFree (f a b)) (bs : List β) (a : α) :
    CallFree (bs.foldlM f a) := by
  induction bs generalizing a with
  | nil => exact ok _
  | cons b bs ih =>
    rw [List.foldlM_cons]
    exact (hf a b).bind ih

end CallFree

/-! ## Operators and members -/

/-- The errors of operators, members and functions. They see values, so they report no name. -/
def Error.isOfValues : Error → Bool
  | .emptyShape | .expression _ => true
  | _ => false

/-- It may fail, but only over the values it is given. -/
def Nameless {α : Type} (x : Except Error α) : Prop :=
  ∀ e, x = .error e → e.isOfValues = true

namespace Nameless

variable {α β : Type} {x : Except Error α}

theorem ok (a : α) : Nameless (.ok a) := nofun

theorem error {e : Error} (h : e.isOfValues = true) : Nameless (.error e : Except Error α) := by
  rintro _ ⟨⟩
  exact h

theorem bind {f : α → Except Error β} (hx : Nameless x) (hf : ∀ a, Nameless (f a)) : Nameless (x >>= f) := by
  intro e h
  cases x with
  | error e' => cases h; exact hx _ rfl
  | ok a => exact hf a e h

theorem ite {c : Prop} [Decidable c] {y : Except Error α} (hx : Nameless x) (hy : Nameless y) :
    Nameless (if c then x else y) := by
  split
  · exact hx
  · exact hy

theorem callFree (h : Nameless x) : CallFree x := by
  intro e he
  have values := h e he
  cases e <;> first | rfl | cases values

theorem ne_unbound (h : Nameless x) (name : String) : x ≠ .error (.unbound name) :=
  fun he => Bool.false_ne_true (h _ he)

end Nameless

namespace Value

theorem nameless_asNumber (context : String) (v : Value) : Nameless (v.asNumber context) := by
  unfold asNumber
  split
  · exact .ok _
  · exact .error rfl

theorem nameless_unary (op : UnaryOp) (v : Value) : Nameless (unary op v) := by
  cases op with
  | negate => exact (nameless_asNumber "-" v).bind fun _ => .ok _
  | not => exact .ok _

theorem nameless_arithmetic (op : BinaryOp) (a b : Float) : Nameless (arithmetic op a b) := by
  cases op with
  | divide | remainder => exact .ite (.error rfl) (.ok _)
  | _ => exact .ok _

theorem nameless_binary (op : BinaryOp) (a b : Value) : Nameless (binary op a b) := by
  unfold binary
  split
  case h_6 => exact nameless_arithmetic _ _ _
  case h_7 =>
    split
    · exact .ok _
    · exact .error rfl
  case h_8 => exact .error rfl
  all_goals exact .ok _

theorem nameless_fault {α : Type} (f : ExprFault) : Nameless (fault f : Except Error α) :=
  .error rfl

theorem nameless_index (target place : Value) : Nameless (index target place) := by
  unfold index
  split
  case h_3 => exact nameless_fault _
  all_goals
    split
    · exact .ok _
    · exact nameless_fault _

theorem nameless_entityMember (entity : Entity) (name : String) : Nameless (entityMember entity name) := by
  unfold entityMember
  split
  · exact .ok _
  · exact nameless_fault _

theorem nameless_sketchMember (node : Node) (name : String) : Nameless (sketchMember node name) := by
  unfold sketchMember
  split
  case h_4 =>
    split
    · exact .error rfl
    · exact .ite (.ok _) (nameless_entityMember _ _)
  all_goals exact .ok _

theorem nameless_member (target : Value) (name : String) : Nameless (member target name) := by
  unfold member
  split
  case h_1 => exact nameless_sketchMember _ _
  case h_2 => exact nameless_entityMember _ _
  case h_3 =>
    split
    · exact .ok _
    · exact nameless_fault _
  case h_6 => exact nameless_fault _
  all_goals exact .ok _

end Value

theorem Scope.callFree_lookup (scope : Scope) (name : String) : CallFree (scope.lookup name) := by
  unfold Scope.lookup
  split
  · exact .ok _
  · exact .error rfl

/-! ## Expressions and arguments -/

mutual

theorem Expr.callFree_eval (scope : Scope) : ∀ e : Expr, CallFree (e.eval scope)
  | .null _ | .bool _ _ | .number _ _ | .text _ _ => .ok _
  | .variable name _ => scope.callFree_lookup name
  | .list items _ => (Expr.callFree_evalAll scope items).bind fun _ => .ok _
  | .unary op operand _ => (Expr.callFree_eval scope operand).bind fun _ => (Value.nameless_unary _ _).callFree
  | .binary op left right _ => by
    have hright := Expr.callFree_eval scope right
    refine (Expr.callFree_eval scope left).bind fun a => ?_
    cases op with
    | and => exact .ite (hright.bind fun _ => .ok _) (.ok _)
    | or => exact .ite (.ok _) (hright.bind fun _ => .ok _)
    | _ => exact hright.bind fun _ => (Value.nameless_binary _ _ _).callFree
  | .conditional condition yes no _ =>
    (Expr.callFree_eval scope condition).bind fun _ =>
      .ite (Expr.callFree_eval scope yes) (Expr.callFree_eval scope no)
  | .call function args _ => by
    refine (Expr.callFree_evalNumbers scope function.value args).bind fun _ => ?_
    split
    · exact .ok _
    · exact .error rfl
  | .index target place _ =>
    (Expr.callFree_eval scope target).bind fun _ =>
      (Expr.callFree_eval scope place).bind fun _ => (Value.nameless_index _ _).callFree
  | .member target _ _ => (Expr.callFree_eval scope target).bind fun _ => (Value.nameless_member _ _).callFree

theorem Expr.callFree_evalAll (scope : Scope) : ∀ es : List Expr, CallFree (Expr.evalAll scope es)
  | [] => .ok _
  | e :: es => (Expr.callFree_eval scope e).bind fun _ => (Expr.callFree_evalAll scope es).bind fun _ => .ok _

theorem Expr.callFree_evalNumbers (scope : Scope) (function : String) :
    ∀ es : List Expr, CallFree (Expr.evalNumbers scope function es)
  | [] => .ok _
  | e :: es =>
    (Expr.callFree_eval scope e).bind fun _ =>
      ((Value.nameless_asNumber _ _).callFree).bind fun _ =>
        (Expr.callFree_evalNumbers scope function es).bind fun _ => .ok _

end

mutual

theorem Arg.callFree_eval (scope : Scope) : ∀ a : Arg, CallFree (a.eval scope)
  | .literal _ => .ok _
  | .expr e => e.callFree_eval scope
  | .list items => (Arg.callFree_evalAll scope items).bind fun _ => .ok _
  | .map entries => (Arg.callFree_evalEntries scope entries).bind fun _ => .ok _

theorem Arg.callFree_evalAll (scope : Scope) : ∀ as : List Arg, CallFree (Arg.evalAll scope as)
  | [] => .ok _
  | a :: as => (Arg.callFree_eval scope a).bind fun _ => (Arg.callFree_evalAll scope as).bind fun _ => .ok _

theorem Arg.callFree_evalEntries (scope : Scope) :
    ∀ entries : List (String × Arg), CallFree (Arg.evalEntries scope entries)
  | [] => .ok _
  | (_, a) :: entries =>
    (Arg.callFree_eval scope a).bind fun _ => (Arg.callFree_evalEntries scope entries).bind fun _ => .ok _

end

end Sketchwork
