/-
  Sketchwork.Proofs.Feature.Pulling — pulling a part of a chain out into a reference.

  The reference is declared last, so only the chain sees it; its name is used nowhere in the
  chain, so nothing that stays is hidden by it. A plain reference takes no ids and calls nothing:
  if it has a value, the chain starts in the same world as before, in a scope with one more name.

  Proved: the document then does the same to every node in every world (`Document.evaluate_of_pulls`),
  also where it is called by name, by others or by itself (`Registry.dispatch_of_pulls`).
-/
import Sketchwork.Proofs.Evaluation.Pulling
import Sketchwork.Proofs.Feature.Bindings

namespace Sketchwork

/-! ## Steps -/

namespace Step

mutual

/-- The variables of the arguments in a step. -/
def names : Step → List String
  | .call _ args => Arg.allNames args
  | .nested steps _ => allNames steps

def allNames : List Step → List String
  | [] => []
  | step :: steps => names step ++ allNames steps

end

theorem mem_allNames {x : String} {steps : List Step} : x ∈ allNames steps ↔ ∃ step ∈ steps, x ∈ names step := by
  induction steps with
  | nil => simp [allNames]
  | cons step steps ih => simp [allNames, ih]

/-- The second step is the first with the variable in some of the places of the part. -/
inductive Pulls (d : Expr) (x : String) : Step → Step → Prop
  | call {name name' : Spanned String} {args args' : List Arg} (hname : name.value = name'.value)
      (length : args.length = args'.length) (h : ∀ {a a'}, (a, a') ∈ args.zip args' → Arg.Pulls d x a a') :
      Pulls d x (.call name args) (.call name' args')
  | nested {steps steps' : List Step} {span span' : Span} (length : steps.length = steps'.length)
      (h : ∀ {s s'}, (s, s') ∈ steps.zip steps' → Pulls d x s s') :
      Pulls d x (.nested steps span) (.nested steps' span')

variable {call : Dispatch} {scope scope' : Scope} {d : Expr} {x : String} {v : Value}

theorem runAll_of_forall₂ {steps steps' : List Step}
    (h : List.Forall₂ (fun s s' : Step => s'.run call scope' = s.run call scope) steps steps') :
    runAll call scope' steps' = runAll call scope steps := by
  funext node
  induction h generalizing node with
  | nil => rfl
  | cons hs _ ih =>
    rw [runAll, runAll, hs]
    exact bind_congr ih

theorem run_of_pulls {step step' : Step} (h : Pulls d x step step') (hx : x ∉ step.names) (hd : d.eval scope = .ok v) :
    step'.run call (scope.bind x v) = step.run call scope := by
  funext node
  induction h generalizing node with
  | call hname length h =>
    rw [run, run, hname, Arg.evalAll_congr (List.forall₂_iff_zip.mpr ⟨length, fun hmem => ?_⟩)]
    exact Arg.eval_of_pulls (h hmem) (fun ha => hx (Arg.mem_allNames.mpr ⟨_, (List.of_mem_zip hmem).1, ha⟩)) hd
  | nested length _ ih =>
    rw [run, run, runAll_of_forall₂ (List.forall₂_iff_zip.mpr ⟨length, fun hmem => funext (ih hmem fun hs => ?_)⟩)]
    exact hx (mem_allNames.mpr ⟨_, (List.of_mem_zip hmem).1, hs⟩)

end Step

/-! ## Documents -/

/-- The step that opens a chain. -/
def Chain.step (chain : Chain) : Step :=
  .nested chain.steps chain.span

/-- The second document is the first with a part of its chain pulled out into a last reference. -/
structure Document.Pulls (d : Document) (part : Expr) (x : String) (d' : Document) : Prop where
  parameters : d'.parameters = d.parameters
  references : ∃ r part', d'.references = d.references ++ [r] ∧ r.name.value = x ∧
    r.binding = .plain (.expr part') ∧ part'.term = part.term
  sketch : Step.Pulls part x d.sketch.step d'.sketch.step
  fresh : x ∉ d.sketch.step.names

/-- Once the references are bound, the part has a value. -/
def Document.Defines (d : Document) (part : Expr) (call : Dispatch) (args : List Value) (w : World) : Prop :=
  ∀ scope w', d.scopeAt call args d.references.length w = (.ok scope, w') → ∃ v, part.eval scope = .ok v

variable {call : Dispatch} {part : Expr} {x : String} {d d' : Document} {args : List Value} {node : Node} {w : World}

theorem Document.evaluate_of_pulls (h : d.Pulls part x d') (hpart : d.Defines part call args w) :
    d'.evaluate call args node w = d.evaluate call args node w := by
  obtain ⟨r, part', hreferences, hname, hbinding, hterm⟩ := h.references
  rw [evaluate_scopeAt d d.references.length, evaluate_scopeAt d' d.references.length, scopeAt, h.parameters,
    hreferences, List.take_left, List.drop_left, List.drop_length, bind_assoc, bind_assoc, Eval.bind_apply,
    Eval.bind_apply, scopeAt, List.take_length]
  rcases hscope : bindReferences call d.references (bindParameters d.parameters args .empty) w with ⟨e | scope, w'⟩
  · rfl
  · obtain ⟨v, hv⟩ := hpart scope w' (by rw [scopeAt, List.take_length, hscope])
    have hvalue : r.binding.value call scope w' = (.ok v, w') := by
      rw [hbinding, Binding.value, Arg.eval, Expr.eval_eq_of_term_eq hterm, hv]
      rfl
    have hbound : bindReferences call [r] scope w' = (.ok (scope.bind x v), w') := by
      rw [bindReferences, Eval.bind_of_ok hvalue, hname]
      rfl
    dsimp only
    rw [Eval.bind_of_ok hbound]
    exact congrFun (congrFun (Step.run_of_pulls h.sketch h.fresh hv) node) w'

theorem Registry.dispatch_of_pulls {registry : Registry} {name : String} (h : d.Pulls part x d')
    (hd : Assoc.get? registry name = some (.document d))
    (hpart : ∀ levels args w, d.Defines part (registry.dispatch levels) args w) (levels : Nat) :
    (registry.register name (.document d')).dispatch levels = registry.dispatch levels := by
  have hself : Assoc.get? (registry.register name (.document d')) name = some (.document d') :=
    Assoc.get?_insert_self ..
  have hother {other : String} (hne : other ≠ name) :
      Assoc.get? (registry.register name (.document d')) other = Assoc.get? registry other :=
    Assoc.get?_insert_of_ne hne ..
  induction levels with
  | zero =>
    funext other args node
    by_cases hne : other = name
    · rw [hne, dispatch_zero hself, dispatch_zero hd]
    cases hf : Assoc.get? registry other with
    | none => rw [dispatch_of_none hf, dispatch_of_none ((hother hne).trans hf)]
    | some feature => rw [dispatch_zero hf, dispatch_zero ((hother hne).trans hf)]
  | succ levels ih =>
    funext other args node
    by_cases hne : other = name
    · have hrun (args : List Value) (node : Node) :
          d'.evaluate (registry.dispatch levels) args node = d.evaluate (registry.dispatch levels) args node :=
        funext fun w => Document.evaluate_of_pulls h (hpart levels args w)
      rw [hne, dispatch_succ hself, dispatch_succ hd, ih, Feature.run, Feature.run, hrun]
    cases hf : Assoc.get? registry other with
    | none => rw [dispatch_of_none hf, dispatch_of_none ((hother hne).trans hf)]
    | some feature => rw [dispatch_succ hf, dispatch_succ ((hother hne).trans hf), ih]

/-- Nothing changes when a part is given a name: an expression has the value or the error it had, and a
    document whose chain loses the part to a last reference draws what it drew, wherever it is called. -/
theorem Document.draws_what_it_drew :
    (∀ (part : Expr) (x : String) (e e' : Expr) (scope : Scope) (v : Value), Expr.Pulls part x e e' → x ∉ e.names →
      part.eval scope = .ok v → e'.eval (scope.bind x v) = e.eval scope) ∧
    ∀ (part : Expr) (x : String) (d d' : Document), d.Pulls part x d' →
      (∀ call args node w, d.Defines part call args w → d'.evaluate call args node w = d.evaluate call args node w) ∧
      ∀ (registry : Registry) (name : String), Assoc.get? registry name = some (.document d) →
        (∀ levels args w, d.Defines part (registry.dispatch levels) args w) →
          ∀ levels, (registry.register name (.document d')).dispatch levels = registry.dispatch levels := by
  refine ⟨?_, fun part x d d' h => ⟨?_, ?_⟩⟩
  · intro part x e e' scope v h hx hd
    exact Expr.eval_of_pulls h hx hd
  · intro call args node w hpart
    exact evaluate_of_pulls h hpart
  · intro registry name hd hpart levels
    exact Registry.dispatch_of_pulls h hd hpart levels

/-- A plate that is given its name by its step. -/
def numberedPlate : Document :=
  ⟨[⟨⟨"n", .point 0⟩, .text "7"⟩], [], ⟨[.call ⟨"name", .point 0⟩ [.expr (number (.point 1))]], .point 0⟩⟩
where
  number (span : Span) : Expr := .binary .add (.text "no. " span) (.variable "n" span) span

/-- The plate with its name in a reference. -/
def labelledPlate : Document :=
  ⟨[⟨⟨"n", .point 0⟩, .text "7"⟩], [⟨⟨"label", .point 0⟩, .plain (.expr (numberedPlate.number (.point 2)))⟩],
    ⟨[.call ⟨"name", .point 0⟩ [.expr (.variable "label" (.point 3))]], .point 0⟩⟩

theorem numberedPlate_pulls : numberedPlate.Pulls (numberedPlate.number (.point 1)) "label" labelledPlate where
  parameters := rfl
  references := ⟨_, _, rfl, rfl, rfl, rfl⟩
  sketch := by
    refine .nested rfl fun hs => ?_
    cases List.mem_singleton.mp hs
    refine .call rfl rfl fun ha => ?_
    cases List.mem_singleton.mp ha
    exact .expr (.here rfl)
  fresh := by decide

theorem numberedPlate_defines (call : Dispatch) (args : List Value) (w : World) :
    numberedPlate.Defines (numberedPlate.number (.point 1)) call args w := by
  intro scope w' h
  cases h
  exact ⟨_, rfl⟩

theorem labelledPlate_draws_what_it_drew :
    (Expr.list [.variable "label" (.point 3), numberedPlate.number (.point 4)] (.point 5)).eval
        ((Scope.empty.bind "n" (.text "7")).bind "label" (.text "no. 7")) =
      (Expr.list [numberedPlate.number (.point 1), numberedPlate.number (.point 2)] (.point 0)).eval
        (Scope.empty.bind "n" (.text "7")) ∧
    labelledPlate.evaluate (Registry.builtins.dispatch 1) [] (.empty ⟨0⟩) ⟨1, []⟩ =
      numberedPlate.evaluate (Registry.builtins.dispatch 1) [] (.empty ⟨0⟩) ⟨1, []⟩ ∧
    (Registry.register "plate" (.document labelledPlate) [("plate", .document numberedPlate)]).dispatch 2 =
      Registry.dispatch [("plate", .document numberedPlate)] 2 := by
  obtain ⟨hexpr, hdocument⟩ := Document.draws_what_it_drew
  obtain ⟨hevaluate, hdispatch⟩ := hdocument _ _ _ _ numberedPlate_pulls
  refine ⟨hexpr (numberedPlate.number (.point 1)) _ _ _ _ _ ?_ (by decide) rfl, ?_, ?_⟩
  · refine .list rfl fun h => ?_
    rcases List.mem_cons.mp h with h | h
    · cases h
      exact .here rfl
    · cases List.mem_singleton.mp h
      exact .binary .text .other
  · exact hevaluate _ _ _ _ (numberedPlate_defines _ _ _)
  · exact hdispatch _ "plate" rfl (fun _ _ _ => numberedPlate_defines _ _ _) 2

end Sketchwork
