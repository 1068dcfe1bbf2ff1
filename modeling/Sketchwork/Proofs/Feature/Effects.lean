/-
  Sketchwork.Proofs.Feature.Effects — what runs of effects are made of.

  An effect takes the world to an outcome and a world. A sequence that succeeds is taken apart
  by `bind_eq_ok` and a run that is known is followed through by the `apply` lemmas, so that
  nothing else has to know how `Eval` is built.
-/
import Sketchwork.Feature.Dispatch

namespace Sketchwork

/-! ## Effects -/

namespace Eval

variable {α β : Type}

@[simp] theorem pure_apply (a : α) (w : World) : (pure a : Eval α) w = (.ok a, w) := rfl
@[simp] theorem throw_apply (e : Error) (w : World) : (throw e : Eval α) w = (.error e, w) := rfl
@[simp] theorem ofExcept_apply (x : Except Error α) (w : World) : ofExcept x w = (x, w) := rfl
@[simp] theorem fresh_apply (w : World) : fresh w = (.ok ⟨w.next⟩, { w with next := w.next + 1 }) := rfl
@[simp] theorem observe_apply (o : Observation) (w : World) :
    observe o w = (.ok (), { w with observations := o :: w.observations }) := rfl

theorem bind_apply (x : Eval α) (f : α → Eval β) (w : World) :
    (x >>= f) w = match x w with
      | (.ok a, w) => f a w
      | (.error e, w) => (.error e, w) := by
  show ExceptT.bindCont f _ _ = _
  rcases h : x w with ⟨e | a, w'⟩ <;> rfl

theorem bind_of_ok {x : Eval α} {f : α → Eval β} {w w₁ : World} {a : α} (h : x w = (.ok a, w₁)) :
    (x >>= f) w = f a w₁ := by
  rw [bind_apply, h]

theorem bind_of_error {x : Eval α} {f : α → Eval β} {w w₁ : World} {e : Error} (h : x w = (.error e, w₁)) :
    (x >>= f) w = (.error e, w₁) := by
  rw [bind_apply, h]

/-- A sequence of two effects succeeds when both do. -/
theorem bind_eq_ok {x : Eval α} {f : α → Eval β} {w w' : World} {b : β} (h : (x >>= f) w = (.ok b, w')) :
    ∃ a w₁, x w = (.ok a, w₁) ∧ f a w₁ = (.ok b, w') := by
  rw [bind_apply] at h
  rcases hx : x w with ⟨e | a, w₁⟩
  · rw [hx] at h; cases h
  · rw [hx] at h; exact ⟨a, w₁, rfl, h⟩

/-- An effect that never fails. -/
def Succeeds (x : Eval α) : Prop :=
  ∀ w, ∃ a w', x w = (.ok a, w')

theorem Succeeds.pure (a : α) : Succeeds (Pure.pure a) :=
  fun w => ⟨a, w, rfl⟩

theorem Succeeds.fresh : Succeeds fresh :=
  fun w => ⟨⟨w.next⟩, _, rfl⟩

theorem Succeeds.bind {x : Eval α} {f : α → Eval β} (hx : Succeeds x) (hf : ∀ a, Succeeds (f a)) :
    Succeeds (x >>= f) := by
  intro w
  obtain ⟨a, w₁, h₁⟩ := hx w
  obtain ⟨b, w₂, h₂⟩ := hf a w₁
  exact ⟨b, w₂, by rw [bind_of_ok h₁, h₂]⟩

/-- What holds of a sequence of draws when it holds of its parts. -/
structure Compositional (P : (α : Type) → Eval α → Prop) : Prop where
  pure {α : Type} (a : α) : P α (Pure.pure a)
  fresh : P NodeId fresh
  bind {α β : Type} {x : Eval α} {f : α → Eval β} : P α x → (∀ a, P β (f a)) → P β (x >>= f)

end Eval

/-! ## Operands

Copies of scenes and the operands of moves are sequences of draws. -/

section

variable {P : (α : Type) → Eval α → Prop} (hP : Eval.Compositional P)

include hP

mutual

theorem Node.renewed_of : ∀ node : Node, P _ node.renewed
  | ⟨_, _, _, _, _, _, _, _, children⟩ => by
    unfold Node.renewed
    exact hP.bind (renewedAll_of children) fun _ => hP.bind hP.fresh fun _ => hP.pure _

theorem Node.renewedAll_of : ∀ nodes : List Node, P _ (Node.renewedAll nodes)
  | [] => hP.pure _
  | node :: nodes => by
    unfold Node.renewedAll
    exact hP.bind (renewed_of node) fun _ => hP.bind (renewedAll_of nodes) fun _ => hP.pure _

end

mutual

theorem Operand.eval_of (args : List Value) : ∀ operand : Operand, P _ (operand.eval args)
  | .value _ => hP.pure _
  | .argument _ => hP.pure _
  | .copy scene => hP.bind (scene.renewed_of hP) fun _ => hP.pure _
  | .list items => hP.bind (evalAll_of args items) fun _ => hP.pure _
  | .map entries => hP.bind (evalEntries_of args entries) fun _ => hP.pure _

theorem Operand.evalAll_of (args : List Value) : ∀ items : List Operand, P _ (evalAll args items)
  | [] => hP.pure _
  | item :: items => by
    unfold Operand.evalAll
    exact hP.bind (eval_of args item) fun _ => hP.bind (evalAll_of args items) fun _ => hP.pure _

theorem Operand.evalEntries_of (args : List Value) :
    ∀ entries : List (String × Operand), P _ (evalEntries args entries)
  | [] => hP.pure _
  | (_, item) :: entries => by
    unfold Operand.evalEntries
    exact hP.bind (eval_of args item) fun _ => hP.bind (evalEntries_of args entries) fun _ => hP.pure _

end

end

/-- The operands of moves always have values. -/
theorem Operand.evalAll_succeeds (args : List Value) (items : List Operand) : Eval.Succeeds (evalAll args items) :=
  evalAll_of (P := fun _ => Eval.Succeeds) ⟨.pure, .fresh, .bind⟩ args items

/-! ## Calls -/

namespace Registry

variable {registry : Registry} {name : String}

theorem dispatch_of_none (h : Assoc.get? registry name = none) (levels : Nat) (args : List Value) (node : Node) :
    registry.dispatch levels name args node = throw (.unknownFeature name) := by
  unfold dispatch
  rw [h]

theorem dispatch_zero {feature : Feature} (h : Assoc.get? registry name = some feature) (args : List Value)
    (node : Node) : registry.dispatch 0 name args node = throw (.recursionLimit name) := by
  unfold dispatch
  rw [h]

theorem dispatch_succ {feature : Feature} (h : Assoc.get? registry name = some feature) (levels : Nat)
    (args : List Value) (node : Node) :
    registry.dispatch (levels + 1) name args node = do
      let output ← feature.run (registry.dispatch levels) (maxDepth - levels) args
        { node with provenance := .stamped name }
      return output.stamp name := by
  rw [dispatch, h]

end Registry

end Sketchwork
