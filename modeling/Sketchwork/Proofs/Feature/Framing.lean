/-
  Sketchwork.Proofs.Feature.Framing — what calls and documents leave as it is.

  A call of a built-in feature stays in the frame of its body. A document works on many handles:
  chains start on blank nodes, references run chains of their own, nested chains work beside the
  node built so far, and every call works on a copy. What comes back of all this is one child.

  Proved:
  - a built-in feature but `new` that is called returns a sketch at the depth of its receiver
    that is in its frame, or an error alone (`frame_of_builtin_call`);
  - a run of a chain comes to every step with what the steps before it built (`run_to_steps`),
    and every nested step on the way of a run that succeeds adds one child to the node built so
    far (`Run.nested_adds`);
  - a document puts one new child behind the children of its input and changes nothing else; the
    child carries the feature that the last call of the chain left (`Document.frame_of_evaluate`).
-/
import Sketchwork.Proofs.Feature.Depth
import Sketchwork.Proofs.Feature.Ids
import Sketchwork.Proofs.Feature.Provenance

namespace Sketchwork

variable {registry : Registry}

/-! ## Built-in features -/

section

variable {name : String} {b : Builtin}

/-- A call of a built-in feature draws an id, runs the feature on the stamped node and stamps what comes back. -/
theorem call_builtin (hr : Assoc.get? registry name = some (.builtin b)) (receiver : Sketch) (values : List Value)
    (w : World) :
    receiver.call registry name values w =
      if maxDepth ≤ receiver.depth then (.error (.recursionLimit name), w)
      else ((b.run ⟨w.next⟩ { receiver.node with provenance := .stamped name } values).map
        fun out => ⟨out.stamp name, receiver.depth⟩, w.tick) := by
  unfold Sketch.call
  by_cases hd : maxDepth ≤ receiver.depth
  · rw [if_pos hd, Nat.sub_eq_zero_of_le hd, Registry.dispatch_zero hr]
    rfl
  · obtain ⟨levels, hl⟩ : ∃ levels, maxDepth - receiver.depth = levels + 1 :=
      Nat.exists_eq_succ_of_ne_zero (by omega)
    rw [if_neg hd, hl, Registry.dispatch_succ hr]
    simp only [Feature.run, bind_assoc]
    rw [Eval.bind_of_ok (Eval.fresh_apply w), Eval.bind_apply, Eval.ofExcept_apply]
    cases b.run ⟨w.next⟩ { receiver.node with provenance := .stamped name } values <;> rfl

theorem Node.stamp_eq_self {node : Node} (h : node.provenance = .stamped name) : node.stamp name = node := by
  cases node
  cases h
  rfl

/-- A built-in feature but `new` keeps the skeleton of its receiver, but for what its frame allows. A call
    that fails leaves no sketch; at most an id is drawn. -/
theorem frame_of_builtin_call (hr : Assoc.get? registry name = some (.builtin b)) (hb : b ≠ .new) (receiver : Sketch)
    (values : List Value) (w : World) :
    (∀ out w', receiver.call registry name values w = (.ok out, w') →
      w' = w.tick ∧ out.depth = receiver.depth ∧ out.node.id = receiver.node.id ∧ out.node.provenance = .stamped name ∧
        receiver.node.children.map Node.skeleton <+: out.node.children.map Node.skeleton ∧
        b.Frame ⟨w.next⟩ values { receiver.node with provenance := .stamped name } out.node) ∧
      ∀ e w', receiver.call registry name values w = (.error e, w') → w' = w ∨ w' = w.tick := by
  rw [call_builtin hr]
  by_cases hd : maxDepth ≤ receiver.depth
  · rw [if_pos hd]
    constructor
    · intro out w' h
      cases h
    · intro e w' h
      cases h
      exact .inl rfl
  · rw [if_neg hd]
    cases hrun : b.run ⟨w.next⟩ { receiver.node with provenance := .stamped name } values with
    | error e =>
      constructor
      · intro out w' h
        cases h
      · intro e w' h
        cases h
        exact .inr rfl
    | ok out =>
      have hframe := Builtin.frame_of_run hb hrun
      constructor
      · intro out' w' h
        cases h
        dsimp only
        rw [Node.stamp_eq_self hframe.provenance]
        exact ⟨rfl, rfl, hframe.id, hframe.provenance, hframe.children, hframe⟩
      · intro e w' h
        cases h

theorem show_keeps_a_scene_with_a_circle :
    let scene : Node := (Node.empty ⟨0⟩).add [.holding ⟨1⟩ [.circle .origin 1.0]]
    ∃ out w', Sketch.call ⟨scene, 0⟩ .builtins "show" [] ⟨2, []⟩ = (.ok out, w') ∧
      Builtin.Frame ⟨2⟩ [] { scene with provenance := .stamped "show" } .unhide out.node := by
  intro scene
  have h : Sketch.call ⟨scene, 0⟩ .builtins "show" [] ⟨2, []⟩ = (.ok _, _) := rfl
  exact ⟨_, _, h, ((frame_of_builtin_call (by rfl) (by decide) _ _ _).1 _ _ h).2.2.2.2.2⟩

end

/-! ## Steps of a chain -/

def Step.isNested : Step → Bool
  | .call _ _ => false
  | .nested _ _ => true

section

variable {call : Dispatch} {depth : Nat} {scope scope' : Scope} {node out acc : Node} {w w' w₁ : World}

theorem exists_of_run_nested {inner : List Step} {span : Span}
    (h : Step.run call scope (.nested inner span) node w = (.ok out, w')) :
    ∃ built, Step.runAll call scope inner (.empty ⟨w.next⟩) w.tick = (.ok built, w') ∧
      out = { node with children := node.children ++ [built] } := by
  rw [Step.run, Eval.bind_of_ok (Eval.fresh_apply w)] at h
  obtain ⟨built, w₁, hbuilt, h⟩ := Eval.bind_eq_ok h
  cases h
  exact ⟨built, hbuilt, rfl⟩

/-- Nested chains add a child each and change nothing else. -/
theorem exists_of_runAll_nested {steps : List Step} (hn : ∀ step ∈ steps, step.isNested = true)
    (h : Step.runAll call scope steps node w = (.ok out, w')) :
    ∃ built : List Node, built.length = steps.length ∧ out = { node with children := node.children ++ built } := by
  induction steps generalizing node w with
  | nil =>
    rw [Step.runAll] at h
    cases h
    exact ⟨[], rfl, by cases out; rw [List.append_nil]⟩
  | cons step steps ih =>
    rw [Step.runAll] at h
    obtain ⟨next, w₁, hs, h⟩ := Eval.bind_eq_ok h
    have hnested := hn step List.mem_cons_self
    cases step with
    | call name args => cases hnested
    | nested inner span =>
      obtain ⟨built, -, rfl⟩ := exists_of_run_nested hs
      obtain ⟨others, hlength, rfl⟩ := ih (fun step hstep => hn step (List.mem_cons_of_mem _ hstep)) h
      refine ⟨built :: others, congrArg Nat.succ hlength, ?_⟩
      rw [List.append_assoc]
      rfl

theorem runAll_append (before after : List Step) (node : Node) :
    Step.runAll call scope (before ++ after) node =
      Step.runAll call scope before node >>= Step.runAll call scope after := by
  induction before generalizing node with
  | nil => rw [List.nil_append, Step.runAll, pure_bind]
  | cons step before ih =>
    rw [List.cons_append, Step.runAll, Step.runAll, bind_assoc]
    exact bind_congr fun next => ih next

/-! ## Runs that come to a step -/

theorem State.after_of_ok {x : Eval Node} {fs : List Frame} (h : x w = (.ok out, w')) :
    State.after x depth fs w = ⟨.done (.ok ⟨out, depth⟩), fs, w'⟩ := by
  rw [State.after, h]
  rfl

variable (h : Realizes registry call depth)

include h

theorem run_step {step : Step} (rest : List Step) (fs : List Frame) (hs : step.run call scope node w = (.ok out, w')) :
    Run registry ⟨.steps (step :: rest) scope ⟨node, depth⟩, fs, w⟩ ⟨.steps rest scope ⟨out, depth⟩, fs, w'⟩ := by
  cases step with
  | call name args =>
    rw [Step.run] at hs
    obtain ⟨values, w₁, hv, hs⟩ := Eval.bind_eq_ok hs
    rw [Eval.ofExcept_apply] at hv
    obtain ⟨hvalues, rfl⟩ := Prod.mk.inj hv
    have hcall := h name.value values node (.steps rest scope :: fs) w
    rw [State.after_of_ok hs] at hcall
    exact .head (.stepCall hvalues) (hcall.tail .stepOn)
  | nested inner span =>
    have hchain := run_chain span (run_steps h scope inner) node (.steps rest scope :: fs) w
    rw [State.after_of_ok hs] at hchain
    exact .head .stepNested (hchain.tail .stepOn)

/-- A run of a chain comes to its steps in order, each with what the steps before it built. -/
theorem run_to_steps {before : List Step} (rest : List Step) (fs : List Frame)
    (hb : Step.runAll call scope before node w = (.ok acc, w₁)) :
    Run registry ⟨.steps (before ++ rest) scope ⟨node, depth⟩, fs, w⟩ ⟨.steps rest scope ⟨acc, depth⟩, fs, w₁⟩ := by
  induction before generalizing node w with
  | nil =>
    rw [Step.runAll] at hb
    cases hb
    exact .refl
  | cons step before ih =>
    rw [Step.runAll] at hb
    obtain ⟨next, w₂, hs, hb⟩ := Eval.bind_eq_ok hb
    exact (run_step h (before ++ rest) fs hs).trans (ih hb)

/-- A run of a document comes to its chain with all references bound. -/
theorem run_to_chain (node : Node) {rs : List Reference} (chain : Chain) (fs : List Frame)
    (hb : Document.bindReferences call rs scope w = (.ok scope', w₁)) :
    Run registry ⟨.references rs chain scope ⟨node, depth⟩, fs, w⟩
      ⟨.chain chain.steps scope' ⟨node, depth⟩, fs, w₁⟩ := by
  induction rs generalizing scope w with
  | nil =>
    cases hb
    exact .single .referenced
  | cons r rs ih =>
    rw [Document.bindReferences] at hb
    obtain ⟨value, w₂, hv, hb⟩ := Eval.bind_eq_ok hb
    cases hk : r.binding with
    | plain arg =>
      rw [hk, Binding.value, Eval.ofExcept_apply] at hv
      obtain ⟨hvalue, rfl⟩ := Prod.mk.inj hv
      exact .head (.plain hk hvalue) (ih hb)
    | sketch c =>
      rw [hk, Binding.value, Eval.bind_of_ok (Eval.fresh_apply w)] at hv
      obtain ⟨built, w₃, hbuilt, hv⟩ := Eval.bind_eq_ok hv
      cases hv
      have hbuilt : Step.run call scope (.nested c.steps c.span) (.empty ⟨w.next⟩) w.tick = (.ok built, w₂) := hbuilt
      have hchain := run_chain c.span (run_steps h scope c.steps) (.empty ⟨w.next⟩)
        (.bind r.name.value rs chain scope ⟨node, depth⟩ :: fs) w.tick
      rw [State.after_of_ok hbuilt] at hchain
      exact .head (.sketch hk) ((hchain.tail .bound).trans (ih hb))

end

/-! ## Documents -/

/-- What a chain builds starts from a fresh node; calls may only put later ones in its place. -/
theorem fresh_of_runAll {levels : Nat} {steps : List Step} {scope : Scope} {built : Node} {w w' : World}
    (h : Step.runAll (registry.dispatch levels) scope steps (.empty ⟨w.next⟩) w.tick = (.ok built, w')) :
    w.next ≤ built.id.serial ∧ built.id.serial < w'.next := by
  have hdraws : (Step.runAll (registry.dispatch levels) scope steps (.empty ⟨w.next⟩)).Draws ⟨w.next⟩ :=
    Step.draws_runAll (registry.draws_dispatch levels) scope steps (.empty ⟨w.next⟩)
  have hgrows : w.next + 1 ≤ w'.next := by
    have hle := hdraws.grows w.tick
    rwa [h] at hle
  rcases hdraws.drawn h with hid | ⟨hlow, hhigh⟩
  · rw [hid]
    exact ⟨Nat.le_refl _, hgrows⟩
  · exact ⟨Nat.le_of_succ_le hlow, hhigh⟩

/-- Wherever a run that succeeds comes to a nested chain, it goes on with one new child behind the
    children of the node built so far, and with nothing else changed. -/
theorem Run.nested_adds {s : State} {final current : Sketch} {inner rest : List Step} {span : Span} {scope : Scope}
    {fs : List Frame} {w₁ w' : World} (hend : Run registry s ⟨.done (.ok final), [], w'⟩)
    (hs : Run registry s ⟨.steps (.nested inner span :: rest) scope current, fs, w₁⟩) :
    ∃ built w₂, w₁.next ≤ built.id.serial ∧ built.id.serial < w₂.next ∧
      Run registry ⟨.steps (.nested inner span :: rest) scope current, fs, w₁⟩ ⟨.steps rest scope
        ⟨{ current.node with children := current.node.children ++ [built] }, current.depth⟩, fs, w₂⟩ := by
  have hreal : Realizes registry (registry.dispatch (maxDepth - current.depth)) current.depth :=
    realizes_dispatch registry _ current.depth rfl
  rcases hx : Step.run (registry.dispatch (maxDepth - current.depth)) scope (.nested inner span) current.node w₁ with
    ⟨e | out, w₂⟩
  · -- an error would have been the end of the run
    have hchain := run_chain span (run_steps hreal scope inner) current.node (.steps rest scope :: fs) w₁
    rw [State.after, hx] at hchain
    have herror : Run registry s ⟨.done (.error e), [], w₂⟩ :=
      hs.trans (.head .stepNested (hchain.trans (run_unwind e _ w₂)))
    cases Run.eq_of_done (hend.halts herror)
  · obtain ⟨built, hbuilt, rfl⟩ := exists_of_run_nested hx
    obtain ⟨hlow, hhigh⟩ := fresh_of_runAll hbuilt
    exact ⟨built, w₂, hlow, hhigh, run_step hreal rest fs hx⟩

/-- What evaluating a document on a sketch makes of it, with `child` for what its chain builds. -/
structure Document.Framed (registry : Registry) (d : Document) (args : List Value) (input : Sketch) (w : World)
    (out : Node) (w' : World) (child : Node) : Prop where
  /-- The run of the body ends with `out`, at the depth of the input. -/
  run : Run registry ⟨.body (.document d) args input, [], w⟩ ⟨.done (.ok ⟨out, input.depth⟩), [], w'⟩
  /-- All fields and children of the input stay; the child is put behind. -/
  out_eq : out = { input.node with children := input.node.children ++ [child] }
  /-- The child is new: its id was drawn on the way. -/
  fresh : w.next ≤ child.id.serial ∧ child.id.serial < w'.next
  /-- Without a call in the chain the child has no feature. -/
  unnamed : (∀ step ∈ d.sketch.steps, step.isNested = true) → child.feature? = none
  /-- The run comes to the last call of the chain, and the child is what this call returns with one more
      child for every nested chain behind it. So it has the name that was called for its feature, or the
      name that the call wrote itself. -/
  named {before after : List Step} {name : Spanned String} {operands : List Arg} :
    d.sketch.steps = before ++ .call name operands :: after → (∀ step ∈ after, step.isNested = true) →
    ∃ receiver values scope w₁ called w₂ built,
      Run registry ⟨.body (.document d) args input, [], w⟩
        ⟨.call name.value values receiver, [.steps after scope, .adopt input], w₁⟩ ∧
      receiver.call registry name.value values w₁ = (.ok called, w₂) ∧ called.depth = input.depth ∧
      built.length = after.length ∧
      child = { called.node with children := called.node.children ++ built } ∧
      (child.feature? = some name.value ∨
        ∃ x, called.node.provenance = .explicit x ∧ child.feature? = some x)
  /-- Nested chains anywhere on the way add one new child to the node built so far and change nothing else. -/
  nested {inner rest : List Step} {span : Span} {scope : Scope} {current : Sketch} {fs : List Frame} {w₁ : World} :
    Run registry ⟨.body (.document d) args input, [], w⟩ ⟨.steps (.nested inner span :: rest) scope current, fs, w₁⟩ →
    ∃ built w₂, w₁.next ≤ built.id.serial ∧ built.id.serial < w₂.next ∧
      Run registry ⟨.steps (.nested inner span :: rest) scope current, fs, w₁⟩ ⟨.steps rest scope
        ⟨{ current.node with children := current.node.children ++ [built] }, current.depth⟩, fs, w₂⟩

theorem Document.frame_of_evaluate {d : Document} {args : List Value} {input : Sketch} {out : Node} {w w' : World}
    (h : d.evaluate (registry.dispatch (maxDepth - input.depth)) args input.node w = (.ok out, w')) :
    ∃ child, d.Framed registry args input w out w' child := by
  obtain ⟨node, depth⟩ := input
  let call := registry.dispatch (maxDepth - depth)
  have hreal : Realizes registry call depth := realizes_dispatch registry _ depth rfl
  have hrun := run_body hreal (.document d) args node [] w
  rw [State.after_of_ok (x := (Feature.document d).run call depth args node) h] at hrun
  obtain ⟨scope, w₀, hrefs, hchain⟩ := Eval.bind_eq_ok h
  obtain ⟨child, hchild, hout⟩ := exists_of_run_nested hchain
  have hgrows : w.next ≤ w₀.next := by
    have := grows_bindReferences (registry.draws_dispatch (maxDepth - depth)) d.references
      (bindParameters d.parameters args .empty) w
    simpa [hrefs] using this
  obtain ⟨hlow, hhigh⟩ := fresh_of_runAll hchild
  refine ⟨child, hrun, hout, ⟨Nat.le_trans hgrows hlow, hhigh⟩, ?_, ?_, fun hs => hrun.nested_adds hs⟩
  · intro hall
    obtain ⟨built, -, rfl⟩ := exists_of_runAll_nested hall hchild
    rfl
  · intro before after name operands hsteps hafter
    rw [hsteps, runAll_append] at hchild
    obtain ⟨acc, w₁, hbefore, hrest⟩ := Eval.bind_eq_ok hchild
    rw [Step.runAll] at hrest
    obtain ⟨called, w₂, hcall, hrest⟩ := Eval.bind_eq_ok hrest
    rw [Step.run] at hcall
    obtain ⟨values, w₃, hvalues, hcall⟩ := Eval.bind_eq_ok hcall
    rw [Eval.ofExcept_apply] at hvalues
    obtain ⟨heval, rfl⟩ := Prod.mk.inj hvalues
    obtain ⟨built, hlength, hbuilt⟩ := exists_of_runAll_nested hafter hrest
    have hcalled : Sketch.call ⟨acc, depth⟩ registry name.value values w₁ = (.ok ⟨called, depth⟩, w₂) := by
      unfold Sketch.call
      rw [Eval.bind_of_ok hcall]
      rfl
    have hto : Run registry ⟨.body (.document d) args ⟨node, depth⟩, [], w⟩
        ⟨.call name.value values ⟨acc, depth⟩, [.steps after scope, .adopt ⟨node, depth⟩], w₁⟩ := by
      have hstart := run_to_chain hreal node d.sketch [] hrefs
      have hfirst := run_to_steps hreal (.call name operands :: after) [.adopt ⟨node, depth⟩] hbefore
      rw [← hsteps] at hfirst
      exact .head .document ((hstart.tail .chain).trans (hfirst.tail (.stepCall heval)))
    refine ⟨⟨acc, depth⟩, values, scope, w₁, ⟨called, depth⟩, w₂, built, hto, hcalled, rfl, hlength, hbuilt, ?_⟩
    rcases (leaves_of_dispatch hcall).eq_stamped_or_explicit with hp | ⟨x, hp⟩
    · left
      rw [hbuilt, Node.feature?, hp]
      rfl
    · right
      refine ⟨x, hp, ?_⟩
      rw [hbuilt, Node.feature?, hp]
      rfl

theorem frame_of_a_call_and_a_nested_chain :
    let d : Document := ⟨[], [], ⟨[.call ⟨"hide", .point 0⟩ [], .nested [] (.point 0)], .point 0⟩⟩
    let input : Sketch := ⟨.empty ⟨0⟩, 0⟩
    ∃ out w' child,
      d.evaluate (Registry.dispatch .builtins (maxDepth - input.depth)) [] input.node ⟨1, []⟩ = (.ok out, w') ∧
        d.Framed .builtins [] input ⟨1, []⟩ out w' child := by
  intro d input
  have h : d.evaluate (Registry.dispatch .builtins (maxDepth - input.depth)) [] input.node ⟨1, []⟩ = (.ok _, _) := rfl
  obtain ⟨child, hframed⟩ := Document.frame_of_evaluate h
  exact ⟨_, _, child, h, hframed⟩

end Sketchwork
