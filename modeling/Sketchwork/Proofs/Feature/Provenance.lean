/-
  Sketchwork.Proofs.Feature.Provenance — which feature the result of a call says it came from.

  A call stamps its receiver with the name that is called before the body runs, and stamps
  what the body returns unless the body has named it. Bodies call, name and start again in any
  order and at any depth; what counts is the last of these moves alone. `Leaves registry f p`
  says so: it is the provenance that calls of `f` leave, read off the bodies in the registry.

  Proved: a call that succeeds leaves this provenance and no other, whatever node, arguments
  and depth it started from (`provenance_of_call`).
-/
import Mathlib.Logic.Relation
import Sketchwork.Proofs.Builtin.Framing

namespace Sketchwork

/-! ## The law -/

/-- A move after which the provenance of the node no longer depends on what it was. -/
def Move.marks : Move → Bool
  | .call _ _ | .setFeature _ | .blank => true
  | .fail | .probe => false

def lastMark? (ms : List Move) : Option Move :=
  (ms.filter Move.marks).getLast?

/-- What a call of a feature leaves as the provenance of the node. -/
inductive Leaves (registry : Registry) : String → Provenance → Prop
  | builtin {f : String} {b : Builtin} (h : Assoc.get? registry f = some (.builtin b)) :
      Leaves registry f (.stamped f)
  | document {f : String} {d : Document} (h : Assoc.get? registry f = some (.document d)) :
      Leaves registry f (.stamped f)
  | unmarked {f : String} {ms : List Move} (h : Assoc.get? registry f = some (.moves ms))
      (last : lastMark? ms = none) : Leaves registry f (.stamped f)
  | blank {f : String} {ms : List Move} (h : Assoc.get? registry f = some (.moves ms))
      (last : lastMark? ms = some .blank) : Leaves registry f (.stamped f)
  | named {f x : String} {ms : List Move} (h : Assoc.get? registry f = some (.moves ms))
      (last : lastMark? ms = some (.setFeature x)) : Leaves registry f (.explicit x)
  | passed {f g x : String} {ms : List Move} {args : List Operand} (h : Assoc.get? registry f = some (.moves ms))
      (last : lastMark? ms = some (.call g args)) (inner : Leaves registry g (.explicit x)) :
      Leaves registry f (.explicit x)
  | covered {f g x : String} {ms : List Move} {args : List Operand} (h : Assoc.get? registry f = some (.moves ms))
      (last : lastMark? ms = some (.call g args)) (inner : Leaves registry g (.stamped x)) :
      Leaves registry f (.stamped f)

/-- The last move of `f` that marks the node is a call of `g`. -/
def EndsWith (registry : Registry) (f g : String) : Prop :=
  ∃ ms args, Assoc.get? registry f = some (.moves ms) ∧ lastMark? ms = some (.call g args)

namespace Leaves

variable {registry : Registry} {f : String} {p : Provenance}

theorem eq_stamped_or_explicit (h : Leaves registry f p) : p = .stamped f ∨ ∃ x, p = .explicit x := by
  cases h with
  | builtin | document | unmarked | blank | covered => exact .inl rfl
  | named | passed => exact .inr ⟨_, rfl⟩

theorem callee_eq {ms ms' : List Move} {g g' : String} {args args' : List Operand}
    (h : Assoc.get? registry f = some (.moves ms)) (last : lastMark? ms = some (.call g args))
    (h' : Assoc.get? registry f = some (.moves ms')) (last' : lastMark? ms' = some (.call g' args')) : g = g' := by
  rw [h] at h'
  cases h'
  rw [last] at last'
  cases last'
  rfl

theorem unique {q : Provenance} (hp : Leaves registry f p) (hq : Leaves registry f q) : p = q := by
  induction hp generalizing q with
  | builtin h | document h => cases hq <;> first | rfl | simp_all
  | unmarked h last | blank h last | named h last => cases hq <;> simp_all
  | passed h last inner ih =>
    cases hq with
    | passed h' last' inner' =>
      obtain rfl := callee_eq h last h' last'
      exact ih inner'
    | covered h' last' inner' =>
      obtain rfl := callee_eq h last h' last'
      cases ih inner'
    | _ => simp_all
  | covered h last inner ih =>
    cases hq with
    | passed h' last' inner' =>
      obtain rfl := callee_eq h last h' last'
      cases ih inner'
    | covered => rfl
    | _ => simp_all

theorem explicit_of_endsWith {g x : String} (hg : Leaves registry g (.explicit x))
    (h : Relation.ReflTransGen (EndsWith registry) f g) : Leaves registry f (.explicit x) := by
  induction h using Relation.ReflTransGen.head_induction_on with
  | refl => exact hg
  | head h _ ih =>
    obtain ⟨ms, args, hms, last⟩ := h
    exact .passed hms last ih

theorem stamped_of_endsWith {g x : String} (hg : Leaves registry g (.stamped x))
    (h : Relation.ReflTransGen (EndsWith registry) f g) : Leaves registry f (.stamped f) := by
  induction h using Relation.ReflTransGen.head_induction_on with
  | refl =>
    rcases hg.eq_stamped_or_explicit with h | ⟨_, h⟩
    · rwa [h] at hg
    · cases h
  | head h _ ih =>
    obtain ⟨ms, args, hms, last⟩ := h
    exact .covered hms last ih

end Leaves

/-! ## Built-in features

They keep the provenance of their receiver, or start a node without one. -/

theorem Builtin.provenance_of_run {b : Builtin} {fresh : NodeId} {node out : Node} {values : List Value}
    (h : b.run fresh node values = .ok out) : out.provenance = node.provenance ∨ out.provenance = .none := by
  by_cases hb : b = .new
  · subst hb
    cases h
    exact .inr rfl
  · exact .inl (frame_of_run hb h).provenance

/-! ## Lists of moves -/

theorem lastMark?_cons (m : Move) (ms : List Move) :
    lastMark? (m :: ms) = (lastMark? ms).or (if m.marks then some m else none) := by
  unfold lastMark?
  rw [List.filter_cons]
  split
  · rw [List.getLast?_cons]
    cases (ms.filter Move.marks).getLast? <;> rfl
  · simp

theorem marks_of_lastMark? {m : Move} {ms : List Move} (h : lastMark? ms = some m) : m.marks = true :=
  (List.mem_filter.mp (List.mem_of_getLast? h)).2

/-- How moves change a provenance `p` when calls leave what they are said to. -/
def Marked (registry : Registry) (ms : List Move) (p q : Provenance) : Prop :=
  match lastMark? ms with
  | some (.call g _) => Leaves registry g q
  | some (.setFeature x) => q = .explicit x
  | some .blank => q = .none
  | _ => q = p

variable {registry : Registry} {call : Dispatch}

theorem marked_move {depth : Nat} {args : List Value} {m : Move} {node out : Node} {w w' : World}
    (hcall : ∀ {g args node w out w'}, call g args node w = (.ok out, w') → Leaves registry g out.provenance)
    (h : m.run call depth args node w = (.ok out, w')) :
    Marked registry [m] node.provenance out.provenance := by
  cases m with
  | call g operands =>
    obtain ⟨_, _, _, h₁⟩ := Eval.bind_eq_ok h
    exact hcall h₁
  | setFeature x => cases h; rfl
  | blank =>
    obtain ⟨_, _, _, h₁⟩ := Eval.bind_eq_ok h
    cases h₁
    rfl
  | fail => cases h
  | probe => cases h; rfl

/-- The mark of later moves counts, the one of earlier moves only when there is no later one. -/
theorem Marked.cons {m : Move} {ms : List Move} {p q r : Provenance} (hm : Marked registry [m] p q)
    (hms : Marked registry ms q r) : Marked registry (m :: ms) p r := by
  unfold Marked at *
  rw [lastMark?_cons] at hm ⊢
  cases hl : lastMark? ms with
  | some last =>
    rw [hl] at hms
    cases last with
    | call | setFeature | blank => exact hms
    | fail | probe => cases marks_of_lastMark? hl
  | none =>
    rw [hl] at hms
    cases hms
    exact hm

theorem marked_moves {depth : Nat} {args : List Value} {ms : List Move} {node out : Node} {w w' : World}
    (hcall : ∀ {g args node w out w'}, call g args node w = (.ok out, w') → Leaves registry g out.provenance)
    (h : ms.foldlM (Move.run call depth args) node w = (.ok out, w')) :
    Marked registry ms node.provenance out.provenance := by
  induction ms generalizing node w with
  | nil => cases h; rfl
  | cons m ms ih =>
    obtain ⟨_, _, h₁, h₂⟩ := Eval.bind_eq_ok h
    exact (marked_move hcall h₁).cons (ih h₂)

/-! ## Calls -/

theorem Node.provenance_of_evaluate {d : Document} {args : List Value} {node out : Node} {w w' : World}
    (h : d.evaluate call args node w = (.ok out, w')) : out.provenance = node.provenance := by
  obtain ⟨_, _, _, h₁⟩ := Eval.bind_eq_ok h
  unfold Chain.run Step.run at h₁
  obtain ⟨_, _, _, h₂⟩ := Eval.bind_eq_ok h₁
  obtain ⟨_, _, _, h₃⟩ := Eval.bind_eq_ok h₂
  cases h₃
  rfl

theorem Node.provenance_stamp {name : String} {node : Node} (h : node.provenance.isExplicit = false) :
    (node.stamp name).provenance = .stamped name := by
  simp [Node.stamp, h]

theorem Node.provenance_stamp_of_explicit {name x : String} {node : Node} (h : node.provenance = .explicit x) :
    (node.stamp name).provenance = .explicit x := by
  simp [Node.stamp, h, Provenance.isExplicit]

/-- What a body leaves, stamped with the name it was called by. -/
theorem leaves_of_run {name : String} {feature : Feature} {depth : Nat} {args : List Value} {node out : Node}
    {w w' : World}
    (hcall : ∀ {g args node w out w'}, call g args node w = (.ok out, w') → Leaves registry g out.provenance)
    (hf : Assoc.get? registry name = some feature) (hn : node.provenance = .stamped name)
    (h : feature.run call depth args node w = (.ok out, w')) :
    Leaves registry name (out.stamp name).provenance := by
  cases feature with
  | builtin b =>
    obtain ⟨_, _, _, h₁⟩ := Eval.bind_eq_ok h
    rw [Eval.ofExcept_apply] at h₁
    have hp : out.provenance.isExplicit = false := by
      rcases Builtin.provenance_of_run (congrArg Prod.fst h₁) with hp | hp <;> simp [hp, hn, Provenance.isExplicit]
    rw [Node.provenance_stamp hp]
    exact .builtin hf
  | document d =>
    rw [Node.provenance_stamp (by rw [Node.provenance_of_evaluate h, hn]; rfl)]
    exact .document hf
  | moves ms =>
    have hm := marked_moves hcall h
    unfold Marked at hm
    split at hm
    case h_1 last =>
      rcases hm.eq_stamped_or_explicit with hp | ⟨x, hp⟩
      · rw [Node.provenance_stamp (by rw [hp]; rfl)]
        exact .covered hf last (hp ▸ hm)
      · rw [Node.provenance_stamp_of_explicit hp]
        exact .passed hf last (hp ▸ hm)
    case h_2 last =>
      rw [Node.provenance_stamp_of_explicit hm]
      exact .named hf last
    case h_3 last =>
      rw [Node.provenance_stamp (by rw [hm]; rfl)]
      exact .blank hf last
    case h_4 hc hs hb =>
      rw [Node.provenance_stamp (by rw [hm, hn]; rfl)]
      refine .unmarked hf ?_
      cases hl : lastMark? ms with
      | none => rfl
      | some last =>
        cases last with
        | call => exact absurd hl (hc _ _)
        | setFeature => exact absurd hl (hs _)
        | blank => exact absurd hl hb
        | fail | probe => cases marks_of_lastMark? hl

theorem leaves_of_dispatch {levels : Nat} {name : String} {args : List Value} {node out : Node} {w w' : World}
    (h : registry.dispatch levels name args node w = (.ok out, w')) : Leaves registry name out.provenance := by
  induction levels generalizing name args node w out w' with
  | zero =>
    cases hf : Assoc.get? registry name with
    | none => rw [Registry.dispatch_of_none hf] at h; cases h
    | some feature => rw [Registry.dispatch_zero hf] at h; cases h
  | succ levels ih =>
    cases hf : Assoc.get? registry name with
    | none => rw [Registry.dispatch_of_none hf] at h; cases h
    | some feature =>
      rw [Registry.dispatch_succ hf] at h
      obtain ⟨_, _, h₁, h₂⟩ := Eval.bind_eq_ok h
      cases h₂
      exact leaves_of_run ih hf rfl h₁

/-- A call that succeeds leaves what the last marks of the bodies say, and this alone. -/
theorem provenance_of_call {registry : Registry} {sketch out : Sketch} {name : String} {args : List Value}
    {w w' : World} (h : sketch.call registry name args w = (.ok out, w')) :
    Leaves registry name out.node.provenance ∧
      (∀ p, Leaves registry name p → p = out.node.provenance) ∧
      (out.node.provenance = .stamped name ∨ ∃ x, out.node.provenance = .explicit x) ∧
      (∀ g x, Relation.ReflTransGen (EndsWith registry) name g → Leaves registry g (.explicit x) →
        out.node.provenance = .explicit x) ∧
      (∀ g x, Relation.ReflTransGen (EndsWith registry) name g → Leaves registry g (.stamped x) →
        out.node.provenance = .stamped name) ∧
      ∀ (sketch₂ out₂ : Sketch) (args₂ : List Value) (w₂ w₂' : World),
        sketch₂.call registry name args₂ w₂ = (.ok out₂, w₂') → out₂.node.provenance = out.node.provenance := by
  have leaves {sketch out : Sketch} {args : List Value} {w w' : World}
      (h : sketch.call registry name args w = (.ok out, w')) : Leaves registry name out.node.provenance := by
    obtain ⟨_, _, h₁, h₂⟩ := Eval.bind_eq_ok h
    cases h₂
    exact leaves_of_dispatch h₁
  refine ⟨leaves h, fun p hp => hp.unique (leaves h), (leaves h).eq_stamped_or_explicit, ?_, ?_, ?_⟩
  · intro g x hg hx
    exact (leaves h).unique (hx.explicit_of_endsWith hg)
  · intro g x hg hx
    exact (leaves h).unique (hx.stamped_of_endsWith hg)
  · intro sketch₂ out₂ args₂ w₂ w₂' h₂
    exact (leaves h₂).unique (leaves h)

theorem explicit_name_survives_outer_call :
    let registry : Registry := [("inner", .moves [.setFeature "custom"]),
      ("outer", .moves [.setFeature "lost", .call "inner" [], .probe])]
    ∃ out w', Sketch.call ⟨.empty ⟨0⟩, 0⟩ registry "outer" [] ⟨1, []⟩ = (.ok out, w') ∧
      out.node.provenance = .explicit "custom" := by
  intro registry
  have h : Sketch.call ⟨.empty ⟨0⟩, 0⟩ registry "outer" [] ⟨1, []⟩ = (.ok _, _) := rfl
  have inner : Leaves registry "inner" (.explicit "custom") := .named rfl rfl
  exact ⟨_, _, h, (provenance_of_call h).2.2.2.1 "inner" "custom" (.single ⟨_, _, rfl, rfl⟩) inner⟩

end Sketchwork
