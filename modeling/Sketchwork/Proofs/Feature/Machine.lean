/-
  Sketchwork.Proofs.Feature.Machine — calls one step at a time.

  `Registry.dispatch` is given the levels that are left and recurses on them. Here a call runs
  as it is written down: every sketch carries its own depth, a call compares the depth of its
  receiver with the limit, and nothing else bounds the run. A state is what is to be done next,
  the frames that wait for its outcome, and the world. Bodies start empty sketches at the depth
  of the sketch they work on, when a chain begins and for a reference that is a sketch; what
  they build comes back with a depth of its own, and only the return from a call sets it.

  Proved: runs are deterministic (`Run.halts`), and every call runs to its end, which is the
  outcome of `Sketch.call` (`run_call`).
-/
import Mathlib.Logic.Relation
import Sketchwork.Proofs.Feature.Effects

namespace Sketchwork

/-- A sketch at the same depth that holds another node. -/
def Sketch.with (sketch : Sketch) (node : Node) : Sketch :=
  { sketch with node }

/-- Every call that is not given back yet has a frame, and so has every body that waits for a call. -/
inductive Frame where
  /-- A call of a feature, with the depth it was made at. -/
  | call (name : String) (depth : Nat)
  /-- Moves that go on with what a call returns. -/
  | moves (rest : List Move) (args : List Value)
  /-- Steps that go on with what a call or a nested chain returns. -/
  | steps (rest : List Step) (scope : Scope)
  /-- What a chain builds becomes a child of the target. -/
  | adopt (target : Sketch)
  /-- What a chain builds is the value of a reference of a document. -/
  | bind (name : String) (rest : List Reference) (chain : Chain) (scope : Scope) (input : Sketch)

/-- What is to be done next. -/
inductive Control where
  | call (name : String) (args : List Value) (receiver : Sketch)
  | body (feature : Feature) (args : List Value) (input : Sketch)
  | moves (rest : List Move) (args : List Value) (current : Sketch)
  | references (rest : List Reference) (chain : Chain) (scope : Scope) (input : Sketch)
  | chain (steps : List Step) (scope : Scope) (target : Sketch)
  | steps (rest : List Step) (scope : Scope) (current : Sketch)
  /-- Hand an outcome to the frame that waits for it. -/
  | done (outcome : Except Error Sketch)

structure State where
  control : Control
  frames : List Frame
  world : World

/-- A call that nothing waits for. -/
def State.calling (receiver : Sketch) (name : String) (args : List Value) (w : World) : State :=
  ⟨.call name args receiver, [], w⟩

namespace World

def tick (w : World) : World :=
  { w with next := w.next + 1 }

/-- An empty node with the next id. -/
def blank (w : World) : Node :=
  .empty ⟨w.next⟩

end World

/-- One step of a run. -/
inductive Next (registry : Registry) : State → State → Prop
  -- calls
  | unknown {name args receiver fs w} : Assoc.get? registry name = none →
      Next registry ⟨.call name args receiver, fs, w⟩ ⟨.done (.error (.unknownFeature name)), fs, w⟩
  | limit {name args receiver fs w feature} : Assoc.get? registry name = some feature →
      maxDepth ≤ receiver.depth →
      Next registry ⟨.call name args receiver, fs, w⟩ ⟨.done (.error (.recursionLimit name)), fs, w⟩
  | enter {name args receiver fs w feature} : Assoc.get? registry name = some feature →
      receiver.depth < maxDepth →
      Next registry ⟨.call name args receiver, fs, w⟩
        ⟨.body feature args ⟨{ receiver.node with provenance := .stamped name }, receiver.depth + 1⟩,
          .call name receiver.depth :: fs, w⟩
  | leave {name depth fs w} {out : Sketch} :
      Next registry ⟨.done (.ok out), .call name depth :: fs, w⟩ ⟨.done (.ok ⟨out.node.stamp name, depth⟩), fs, w⟩
  | unwind {e f fs w} : Next registry ⟨.done (.error e), f :: fs, w⟩ ⟨.done (.error e), fs, w⟩
  -- bodies
  | builtin {b args fs w} {input : Sketch} :
      Next registry ⟨.body (.builtin b) args input, fs, w⟩
        ⟨.done ((b.run ⟨w.next⟩ input.node args).map input.with), fs, w.tick⟩
  | document {d args input fs w} :
      Next registry ⟨.body (.document d) args input, fs, w⟩
        ⟨.references d.references d.sketch (Document.bindParameters d.parameters args .empty) input, fs, w⟩
  | listed {ms args input fs w} : Next registry ⟨.body (.moves ms) args input, fs, w⟩ ⟨.moves ms args input, fs, w⟩
  -- lists of moves
  | moved {args current fs w} : Next registry ⟨.moves [] args current, fs, w⟩ ⟨.done (.ok current), fs, w⟩
  | moveCall {name operands ms args current fs w values w'} : Operand.evalAll args operands w = (.ok values, w') →
      Next registry ⟨.moves (.call name operands :: ms) args current, fs, w⟩
        ⟨.call name values current, .moves ms args :: fs, w'⟩
  | moveOn {ms args fs w} {out : Sketch} :
      Next registry ⟨.done (.ok out), .moves ms args :: fs, w⟩ ⟨.moves ms args out, fs, w⟩
  | setFeature {name ms args fs w} {current : Sketch} :
      Next registry ⟨.moves (.setFeature name :: ms) args current, fs, w⟩
        ⟨.moves ms args (current.with (current.node.setFeature name)), fs, w⟩
  | blank {ms args fs w} {current : Sketch} :
      Next registry ⟨.moves (.blank :: ms) args current, fs, w⟩ ⟨.moves ms args (current.with w.blank), fs, w.tick⟩
  | fail {ms args current fs w} :
      Next registry ⟨.moves (.fail :: ms) args current, fs, w⟩ ⟨.done (.error .emptyShape), fs, w⟩
  | probe {ms args fs w} {current : Sketch} :
      Next registry ⟨.moves (.probe :: ms) args current, fs, w⟩
        ⟨.moves ms args current, fs,
          { w with observations := ⟨args, current.depth, current.node.feature?⟩ :: w.observations }⟩
  -- references
  | referenced {chain scope input fs w} :
      Next registry ⟨.references [] chain scope input, fs, w⟩ ⟨.chain chain.steps scope input, fs, w⟩
  | plain {r arg rs chain scope input fs w value} : r.binding = .plain arg → arg.eval scope = .ok value →
      Next registry ⟨.references (r :: rs) chain scope input, fs, w⟩
        ⟨.references rs chain (scope.bind r.name.value value) input, fs, w⟩
  | plainFails {r arg rs chain scope input fs w e} : r.binding = .plain arg → arg.eval scope = .error e →
      Next registry ⟨.references (r :: rs) chain scope input, fs, w⟩ ⟨.done (.error e), fs, w⟩
  | sketch {r c rs chain scope fs w} {input : Sketch} : r.binding = .sketch c →
      Next registry ⟨.references (r :: rs) chain scope input, fs, w⟩
        ⟨.chain c.steps scope (input.with w.blank), .bind r.name.value rs chain scope input :: fs, w.tick⟩
  | bound {name rs chain scope input fs w} {out : Sketch} :
      Next registry ⟨.done (.ok out), .bind name rs chain scope input :: fs, w⟩
        ⟨.references rs chain (scope.bind name (.sketch out.node)) input, fs, w⟩
  -- chains
  | chain {steps scope fs w} {target : Sketch} :
      Next registry ⟨.chain steps scope target, fs, w⟩
        ⟨.steps steps scope (target.with w.blank), .adopt target :: fs, w.tick⟩
  | adopted {target fs w} {out : Sketch} :
      Next registry ⟨.done (.ok out), .adopt target :: fs, w⟩
        ⟨.done (.ok (target.with (target.node.add [out.node]))), fs, w⟩
  | stepped {scope current fs w} : Next registry ⟨.steps [] scope current, fs, w⟩ ⟨.done (.ok current), fs, w⟩
  | stepCall {name args steps scope current fs w values} : Arg.evalAll scope args = .ok values →
      Next registry ⟨.steps (.call name args :: steps) scope current, fs, w⟩
        ⟨.call name.value values current, .steps steps scope :: fs, w⟩
  | stepFails {name args steps scope current fs w e} : Arg.evalAll scope args = .error e →
      Next registry ⟨.steps (.call name args :: steps) scope current, fs, w⟩ ⟨.done (.error e), fs, w⟩
  | stepNested {inner span steps scope current fs w} :
      Next registry ⟨.steps (.nested inner span :: steps) scope current, fs, w⟩
        ⟨.chain inner scope current, .steps steps scope :: fs, w⟩
  | stepOn {steps scope fs w} {out : Sketch} :
      Next registry ⟨.done (.ok out), .steps steps scope :: fs, w⟩ ⟨.steps steps scope out, fs, w⟩

/-- Some steps, or none. -/
abbrev Run (registry : Registry) : State → State → Prop :=
  Relation.ReflTransGen (Next registry)

variable {registry : Registry} {s t u : State}

/-! ## Runs are deterministic -/

theorem Next.unique (h : Next registry s t) (h' : Next registry s u) : t = u := by
  cases h <;> cases h' <;> first | rfl | omega | (simp_all; done) | grind

theorem Next.not_done {outcome : Except Error Sketch} {w : World} : ¬ Next registry ⟨.done outcome, [], w⟩ t := by
  intro h
  cases h

/-- Whatever a run reaches on the way goes on to where the run ends. -/
theorem Run.halts {outcome : Except Error Sketch} {w : World} (h : Run registry s ⟨.done outcome, [], w⟩)
    (h' : Run registry s t) : Run registry t ⟨.done outcome, [], w⟩ := by
  have unique : Relator.RightUnique (Next registry) := fun _ _ _ => Next.unique
  rcases Relation.ReflTransGen.total_of_right_unique unique h h' with ht | ht
  · cases ht.cases_head with
    | inl e => rw [← e]
    | inr h => obtain ⟨_, h, _⟩ := h; exact absurd h Next.not_done
  · exact ht

theorem Run.acc {outcome : Except Error Sketch} {w : World} (h : Run registry s ⟨.done outcome, [], w⟩) :
    Acc (fun t s => Next registry s t) s := by
  induction h using Relation.ReflTransGen.head_induction_on with
  | refl => exact ⟨_, fun _ h => absurd h Next.not_done⟩
  | head h _ ih => exact ⟨_, fun _ h' => h'.unique h ▸ ih⟩

/-! ## Runs compute what calls return -/

/-- An effect on a node has been run at a depth. -/
def State.after (x : Eval Node) (depth : Nat) (fs : List Frame) (w : World) : State :=
  ⟨.done ((x w).1.map (⟨·, depth⟩)), fs, (x w).2⟩

/-- A run that goes on in a frame once an effect has returned. -/
theorem Run.bind {x : Eval Node} {k : Node → Eval Node} {f : Frame} {fs : List Frame} {depth depth' : Nat} {w : World}
    (hx : Run registry s (.after x depth (f :: fs) w))
    (hk : ∀ node w, Run registry ⟨.done (.ok ⟨node, depth⟩), f :: fs, w⟩ (.after (k node) depth' fs w)) :
    Run registry s (.after (x >>= k) depth' fs w) := by
  rcases h : x w with ⟨e | node, w₁⟩
  · refine hx.trans (.single ?_)
    simp only [State.after, Eval.bind_of_error h, h]
    exact .unwind
  · refine hx.trans ?_
    simp only [State.after, Eval.bind_of_ok h, h]
    exact hk node w₁

/-- The machine runs calls at a depth as `call` does. -/
def Realizes (registry : Registry) (call : Dispatch) (depth : Nat) : Prop :=
  ∀ name args node fs w, Run registry ⟨.call name args ⟨node, depth⟩, fs, w⟩ (.after (call name args node) depth fs w)

variable {call : Dispatch} {depth : Nat}

theorem run_moves (h : Realizes registry call depth) (ms : List Move) (args : List Value) (node : Node)
    (fs : List Frame) (w : World) :
    Run registry ⟨.moves ms args ⟨node, depth⟩, fs, w⟩ (.after (ms.foldlM (Move.run call depth args) node) depth fs w) := by
  induction ms generalizing node w with
  | nil => exact .single .moved
  | cons m ms ih =>
    rw [List.foldlM_cons]
    cases m with
    | call name operands =>
      obtain ⟨values, w₁, hv⟩ := Operand.evalAll_succeeds args operands w
      have hcall : (Move.run call depth args node (.call name operands)) w = call name values node w₁ :=
        Eval.bind_of_ok hv
      have hseq {k : Node → Eval Node} :
          (Move.run call depth args node (.call name operands) >>= k) w = (call name values node >>= k) w₁ := by
        rw [Eval.bind_apply, hcall, Eval.bind_apply]
      unfold State.after
      rw [hseq]
      exact .head (.moveCall hv) ((h _ _ _ _ _).bind fun node w => .head .moveOn (ih node w))
    | setFeature name => exact .head .setFeature (ih _ _)
    | blank => exact .head .blank (ih _ _)
    | fail => exact .single .fail
    | probe => exact .head .probe (ih _ _)

theorem run_chain {steps : List Step} {scope : Scope} (span : Span)
    (h : ∀ node fs w,
      Run registry ⟨.steps steps scope ⟨node, depth⟩, fs, w⟩ (.after (Step.runAll call scope steps node) depth fs w))
    (node : Node) (fs : List Frame) (w : World) :
    Run registry ⟨.chain steps scope ⟨node, depth⟩, fs, w⟩
      (.after (Step.run call scope (.nested steps span) node) depth fs w) := by
  unfold Step.run State.after
  rw [Eval.bind_of_ok (Eval.fresh_apply w)]
  exact .head .chain ((h _ _ _).bind fun built w => .single .adopted)

theorem run_steps (h : Realizes registry call depth) (scope : Scope) : ∀ (steps : List Step) (node : Node)
    (fs : List Frame) (w : World),
    Run registry ⟨.steps steps scope ⟨node, depth⟩, fs, w⟩ (.after (Step.runAll call scope steps node) depth fs w)
  | [], node, fs, w => by
    unfold Step.runAll
    exact .single .stepped
  | .call name args :: steps, node, fs, w => by
    rw [Step.runAll, Step.run]
    cases hv : Arg.evalAll scope args with
    | error e => exact .single (.stepFails hv)
    | ok values =>
      exact .head (.stepCall hv) ((h _ _ _ _ _).bind fun node w => .head .stepOn (run_steps h scope steps node _ w))
  | .nested inner span :: steps, node, fs, w => by
    rw [Step.runAll]
    exact .head .stepNested ((run_chain span (run_steps h scope inner) node _ w).bind fun node w =>
      .head .stepOn (run_steps h scope steps node _ w))

theorem run_references (h : Realizes registry call depth) (chain : Chain) (node : Node) (fs : List Frame)
    (rs : List Reference) (scope : Scope) (w : World) :
    Run registry ⟨.references rs chain scope ⟨node, depth⟩, fs, w⟩
      (.after (do chain.run call (← Document.bindReferences call rs scope) node) depth fs w) := by
  induction rs generalizing scope w with
  | nil => exact .head .referenced (run_chain chain.span (run_steps h scope chain.steps) node fs w)
  | cons r rs ih =>
    rw [Document.bindReferences]
    cases hb : r.binding with
    | plain arg =>
      rw [Binding.value]
      cases hv : arg.eval scope with
      | error e => exact .single (.plainFails hb hv)
      | ok value => exact .head (.plain hb hv) (ih _ _)
    | sketch c =>
      rw [Binding.value]
      simp only [bind_assoc, pure_bind]
      unfold State.after
      rw [Eval.bind_of_ok (Eval.fresh_apply w)]
      exact .head (.sketch hb) ((run_chain c.span (run_steps h scope c.steps) _ _ _).bind fun built w =>
        .head .bound (ih _ w))

theorem run_body (h : Realizes registry call depth) (feature : Feature) (args : List Value) (node : Node)
    (fs : List Frame) (w : World) :
    Run registry ⟨.body feature args ⟨node, depth⟩, fs, w⟩ (.after (feature.run call depth args node) depth fs w) := by
  cases feature with
  | builtin b => exact .single .builtin
  | document d => exact .head .document (run_references h _ _ _ _ _ _)
  | moves ms => exact .head .listed (run_moves h _ _ _ _ _)

theorem realizes_dispatch (registry : Registry) (levels depth : Nat) (h : maxDepth - depth = levels) :
    Realizes registry (registry.dispatch levels) depth := by
  induction levels generalizing depth with
  | zero =>
    intro name args node fs w
    cases hf : Assoc.get? registry name with
    | none => rw [Registry.dispatch_of_none hf]; exact .single (.unknown hf)
    | some feature => rw [Registry.dispatch_zero hf]; exact .single (.limit hf (by dsimp only; omega))
  | succ levels ih =>
    intro name args node fs w
    cases hf : Assoc.get? registry name with
    | none => rw [Registry.dispatch_of_none hf]; exact .single (.unknown hf)
    | some feature =>
      rw [Registry.dispatch_succ hf, show maxDepth - levels = depth + 1 by omega]
      refine .head (.enter hf (by dsimp only; omega)) ?_
      exact (run_body (ih (depth + 1) (by omega)) feature args _ _ w).bind fun node w => .single .leave

/-- Every call runs to its end, and ends with what `Sketch.call` returns. -/
theorem run_call (registry : Registry) (receiver : Sketch) (name : String) (args : List Value) (fs : List Frame)
    (w : World) :
    Run registry ⟨.call name args receiver, fs, w⟩
      ⟨.done (receiver.call registry name args w).1, fs, (receiver.call registry name args w).2⟩ := by
  have h := realizes_dispatch registry _ receiver.depth rfl name args receiver.node fs w
  have : (receiver.call registry name args w) =
      (((registry.dispatch (maxDepth - receiver.depth) name args receiver.node w).1.map (⟨·, receiver.depth⟩)),
        (registry.dispatch (maxDepth - receiver.depth) name args receiver.node w).2) := by
    unfold Sketch.call
    rw [Eval.bind_apply]
    rcases registry.dispatch (maxDepth - receiver.depth) name args receiver.node w with ⟨e | out, w'⟩ <;> rfl
  rw [this]
  exact h

end Sketchwork
