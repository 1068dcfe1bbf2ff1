/-
  Sketchwork.Proofs.Feature.Ids — which ids nodes have after calls.

  Ids come from a supply that is only ever drawn from (`Eval.Grows`). A body works on the node
  it is given and may put a new one in its place, so what it returns has the id of its node or
  one that was drawn while it ran (`Eval.Draws`). Both go through every body by its constructors.

  Proved: calls only draw from the supply, and the id of what a call returns is that of its
  receiver or was drawn on the way (`Registry.draws_dispatch`); so is that of what a chain
  builds (`Step.draws_runAll`), and no other id comes up.
-/
import Sketchwork.Proofs.Builtin.Framing

namespace Sketchwork

/-! ## The supply -/

namespace Eval

variable {α β : Type}

/-- No id goes back to the supply. -/
def Grows (x : Eval α) : Prop :=
  ∀ w, w.next ≤ (x w).2.next

theorem Grows.pure (a : α) : Grows (Pure.pure a) :=
  fun _ => Nat.le_refl _

theorem Grows.throw (e : Error) : Grows (MonadExcept.throw e : Eval α) :=
  fun _ => Nat.le_refl _

theorem Grows.fresh : Grows fresh :=
  fun _ => Nat.le_succ _

theorem Grows.observe (o : Observation) : Grows (observe o) :=
  fun _ => Nat.le_refl _

theorem Grows.ofExcept (x : Except Error α) : Grows (ofExcept x) :=
  fun _ => Nat.le_refl _

theorem Grows.bind {x : Eval α} {f : α → Eval β} (hx : Grows x) (hf : ∀ a, Grows (f a)) : Grows (x >>= f) := by
  intro w
  have h := hx w
  rw [bind_apply]
  rcases hxw : x w with ⟨e | a, w₁⟩
  · rwa [hxw] at h
  · rw [hxw] at h
    exact Nat.le_trans h (hf a w₁)

/-! ## Nodes -/

/-- An effect that returns a node with the id `id` or with one that is drawn on the way. -/
structure Draws (id : NodeId) (x : Eval Node) : Prop where
  grows : x.Grows
  drawn {w out w'} : x w = (.ok out, w') → out.id = id ∨ (w.next ≤ out.id.serial ∧ out.id.serial < w'.next)

variable {id : NodeId}

theorem Draws.pure {node : Node} (h : node.id = id) : Draws id (Pure.pure node) where
  grows := .pure node
  drawn hx := by cases hx; exact .inl h

theorem Draws.throw (e : Error) : Draws id (MonadExcept.throw e) where
  grows := .throw e
  drawn hx := by cases hx

/-- Something else is done first. -/
theorem Draws.after {x : Eval α} {f : α → Eval Node} (hx : Grows x) (hf : ∀ a, Draws id (f a)) :
    Draws id (x >>= f) where
  grows := hx.bind fun a => (hf a).grows
  drawn {w out w'} h := by
    obtain ⟨a, w₁, h₁, h⟩ := bind_eq_ok h
    have hle : w.next ≤ w₁.next := by simpa [h₁] using hx w
    rcases (hf a).drawn h with hid | ⟨hlow, hhigh⟩
    · exact .inl hid
    · exact .inr ⟨Nat.le_trans hle hlow, hhigh⟩

/-- One node after the other: an id that the first draws is still drawn on the way. -/
theorem Draws.bind {x : Eval Node} {f : Node → Eval Node} (hx : Draws id x) (hf : ∀ node, Draws node.id (f node)) :
    Draws id (x >>= f) where
  grows := hx.grows.bind fun node => (hf node).grows
  drawn {w out w'} h := by
    obtain ⟨node, w₁, h₁, h⟩ := bind_eq_ok h
    have hle : w.next ≤ w₁.next := by simpa [h₁] using hx.grows w
    have hle' : w₁.next ≤ w'.next := by simpa [h] using (hf node).grows w₁
    rcases (hf node).drawn h with hid | ⟨hlow, hhigh⟩
    · rw [hid]
      rcases hx.drawn h₁ with hnode | ⟨hlow, hhigh⟩
      · exact .inl hnode
      · exact .inr ⟨hlow, Nat.lt_of_lt_of_le hhigh hle'⟩
    · exact .inr ⟨Nat.le_trans hle hlow, hhigh⟩

/-- A node that takes the next id. -/
theorem Draws.fresh {f : NodeId → Node} (hf : ∀ new, (f new).id = new) :
    Draws id (Eval.fresh >>= fun new => Pure.pure (f new)) where
  grows := Grows.fresh.bind fun _ => .pure _
  drawn {w out w'} h := by
    cases h
    rw [hf]
    exact .inr ⟨Nat.le_refl _, Nat.lt_succ_self _⟩

end Eval

theorem Operand.grows_evalAll (args : List Value) (items : List Operand) : Eval.Grows (evalAll args items) :=
  evalAll_of (P := fun _ => Eval.Grows) ⟨.pure, .fresh, .bind⟩ args items

/-! ## Bodies -/

theorem Builtin.id_of_run {b : Builtin} {fresh : NodeId} {node out : Node} {values : List Value}
    (h : b.run fresh node values = .ok out) : out.id = node.id ∨ out.id = fresh := by
  by_cases hb : b = .new
  · subst hb
    cases h
    exact .inr rfl
  · exact .inl (frame_of_run hb h).id

section

variable {call : Dispatch}

mutual

/-- What a chain builds has the id it started from or one drawn since. -/
theorem Step.draws_runAll (hcall : ∀ name args node, (call name args node).Draws node.id) (scope : Scope) :
    ∀ (steps : List Step) (node : Node), (Step.runAll call scope steps node).Draws node.id
  | [], node => by
    rw [Step.runAll]
    exact .pure rfl
  | step :: steps, node => by
    rw [Step.runAll]
    exact (draws_run hcall scope step node).bind fun next => draws_runAll hcall scope steps next

theorem Step.draws_run (hcall : ∀ name args node, (call name args node).Draws node.id) (scope : Scope) :
    ∀ (step : Step) (node : Node), (step.run call scope node).Draws node.id
  | .call name args, node => by
    rw [Step.run]
    exact .after (.ofExcept _) fun values => hcall _ values node
  | .nested steps _, node => by
    rw [Step.run]
    exact .after .fresh fun new => .after (draws_runAll hcall scope steps (.empty new)).grows fun built => .pure rfl

end

variable (hcall : ∀ name args node, (call name args node).Draws node.id)

include hcall

theorem Move.draws_run (depth : Nat) (args : List Value) (node : Node) (m : Move) :
    (m.run call depth args node).Draws node.id := by
  cases m with
  | call name operands => exact .after (Operand.grows_evalAll args operands) fun values => hcall name values node
  | setFeature name => exact .pure rfl
  | blank => exact .fresh fun _ => rfl
  | fail => exact .throw _
  | probe => exact .after (.observe _) fun _ => .pure rfl

theorem Document.grows_bindReferences (rs : List Reference) (scope : Scope) : (bindReferences call rs scope).Grows := by
  induction rs generalizing scope with
  | nil => exact .pure scope
  | cons r rs ih =>
    have hvalue : (r.binding.value call scope).Grows := by
      cases r.binding with
      | plain arg => exact .ofExcept _
      | sketch chain =>
        have hchain (node : Node) := (Step.draws_run hcall scope (.nested chain.steps chain.span) node).grows
        exact .bind .fresh fun new => (hchain (.empty new)).bind fun built => .pure _
    rw [bindReferences]
    exact hvalue.bind fun value => ih _

theorem Feature.draws_run (depth : Nat) (args : List Value) (node : Node) (feature : Feature) :
    (feature.run call depth args node).Draws node.id := by
  cases feature with
  | builtin b =>
    refine ⟨Eval.Grows.fresh.bind fun new => .ofExcept _, fun {w out w'} h => ?_⟩
    obtain ⟨new, w₁, h₁, h⟩ := Eval.bind_eq_ok h
    cases h₁
    rw [Eval.ofExcept_apply] at h
    obtain ⟨hrun, rfl⟩ := Prod.mk.inj h
    rcases Builtin.id_of_run hrun with hid | hid
    · exact .inl hid
    · rw [hid]
      exact .inr ⟨Nat.le_refl _, Nat.lt_succ_self _⟩
  | document d =>
    exact .after (Document.grows_bindReferences hcall _ _) fun scope =>
      Step.draws_run hcall scope (.nested d.sketch.steps d.sketch.span) node
  | moves ms =>
    show (ms.foldlM (Move.run call depth args) node).Draws node.id
    induction ms generalizing node with
    | nil => exact .pure rfl
    | cons m ms ih =>
      rw [List.foldlM_cons]
      exact (m.draws_run hcall depth args node).bind ih

end

/-! ## Calls -/

theorem Node.id_stamp (name : String) (node : Node) : (node.stamp name).id = node.id := by
  unfold stamp
  split <;> rfl

theorem Registry.draws_dispatch (registry : Registry) (levels : Nat) (name : String) (args : List Value) (node : Node) :
    (registry.dispatch levels name args node).Draws node.id := by
  induction levels generalizing name args node with
  | zero =>
    cases hf : Assoc.get? registry name with
    | none => rw [dispatch_of_none hf]; exact .throw _
    | some feature => rw [dispatch_zero hf]; exact .throw _
  | succ levels ih =>
    cases hf : Assoc.get? registry name with
    | none => rw [dispatch_of_none hf]; exact .throw _
    | some feature =>
      rw [dispatch_succ hf]
      exact Eval.Draws.bind (feature.draws_run ih _ args { node with provenance := .stamped name }) fun out =>
        .pure (out.id_stamp name)

end Sketchwork
