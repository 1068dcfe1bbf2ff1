/-
  Sketchwork.Proofs.Feature.Bindings — what references are bound to, and the scopes they are seen from.

  References are bound in their order, each in the scope of the parameters and of the references
  before it; the chain runs in the scope of them all (`Document.evaluate_scopeAt`). `outcomes`
  keeps what every one is bound to, so that a binding can be spoken of without what follows it.

  Proved: the first outcomes are those of the first references (`outcomes_take`); the scope at a
  place binds the names declared before it to their outcomes and no other name
  (`Document.outcomes_of_scopeAt`, `Document.lookup?_scopeAt`); and where an argument that is
  evaluated fails, the document fails with its error (`Document.evaluate_of_asks`).
-/
import Sketchwork.Proofs.Evaluation.Names
import Sketchwork.Proofs.Feature.Effects

namespace Sketchwork

/-! ## Names of a scope -/

namespace Scope

variable {scope : Scope} {name x : String} {value : Value}

theorem get?_bind_eq_none_iff :
    (scope.bind name value).bindings.get? x = none ↔ x ≠ name ∧ scope.bindings.get? x = none := by
  rw [bind]
  by_cases hx : x = name
  · subst hx
    simp
  · rw [Assoc.get?_insert_of_ne hx]
    simp [hx]

/-- Binds names one after the other. -/
def bindAll (scope : Scope) (entries : List (String × Value)) : Scope :=
  entries.foldl (fun scope entry => scope.bind entry.1 entry.2) scope

theorem get?_bindAll_eq_none_iff {entries : List (String × Value)} :
    (scope.bindAll entries).bindings.get? x = none ↔ x ∉ entries.map (·.1) ∧ scope.bindings.get? x = none := by
  induction entries generalizing scope with
  | nil => simp [bindAll]
  | cons entry entries ih =>
    rw [bindAll, List.foldl_cons, ← bindAll, ih, get?_bind_eq_none_iff, List.map_cons, List.mem_cons]
    tauto

end Scope

namespace Document

variable {call : Dispatch} {scope scope' : Scope} {rs : List Reference} {w w' : World}

theorem get?_bindParameters_eq_none_iff {ps : List Parameter} {args : List Value} {x : String} :
    (bindParameters ps args scope).bindings.get? x = none ↔
      x ∉ ps.map (·.name.value) ∧ scope.bindings.get? x = none := by
  induction ps generalizing args scope with
  | nil => simp [bindParameters]
  | cons p ps ih =>
    rw [bindParameters, ih, Scope.get?_bind_eq_none_iff, List.map_cons, List.mem_cons]
    tauto

/-! ## Outcomes -/

/-- What references are bound to, up to the first that fails. -/
def outcomesOf (call : Dispatch) : List Reference → Scope → World → List (Except Error Value)
  | [], _, _ => []
  | r :: rs, scope, w =>
    match r.binding.value call scope w with
    | (.ok value, w) => .ok value :: outcomesOf call rs (scope.bind r.name.value value) w
    | (.error e, _) => [.error e]

/-- A binding does not depend on what follows it. -/
theorem outcomesOf_take (n : Nat) : outcomesOf call (rs.take n) scope w = (outcomesOf call rs scope w).take n := by
  induction rs generalizing n scope w with
  | nil => rw [List.take_nil, outcomesOf, List.take_nil]
  | cons r rs ih =>
    cases n with
    | zero => rfl
    | succ n =>
      rw [List.take_succ_cons, outcomesOf, outcomesOf]
      rcases r.binding.value call scope w with ⟨e | value, w'⟩
      · rw [List.take_succ_cons, List.take_nil]
      · rw [List.take_succ_cons, ← ih]

theorem outcomesOf_of_ok (h : bindReferences call rs scope w = (.ok scope', w')) :
    ∃ values : List Value, outcomesOf call rs scope w = values.map .ok ∧ values.length = rs.length ∧
      scope' = scope.bindAll ((rs.map (·.name.value)).zip values) := by
  induction rs generalizing scope w with
  | nil =>
    cases h
    exact ⟨[], rfl, rfl, rfl⟩
  | cons r rs ih =>
    rw [bindReferences] at h
    obtain ⟨value, w₁, hvalue, h⟩ := Eval.bind_eq_ok h
    obtain ⟨values, hvalues, hlength, rfl⟩ := ih h
    refine ⟨value :: values, ?_, congrArg Nat.succ hlength, rfl⟩
    rw [outcomesOf, hvalue]
    exact congrArg _ hvalues

theorem bindReferences_append (before after : List Reference) (scope : Scope) :
    bindReferences call (before ++ after) scope = bindReferences call before scope >>= bindReferences call after := by
  induction before generalizing scope with
  | nil => rw [List.nil_append, bindReferences, pure_bind]
  | cons r before ih =>
    rw [List.cons_append, bindReferences, bindReferences, bind_assoc]
    exact bind_congr fun value => ih _

/-! ## Scopes of a document -/

variable {d : Document} {args : List Value} {i : Nat}

/-- The scope that the reference at a place is evaluated in, the chain behind the last one. -/
def scopeAt (d : Document) (call : Dispatch) (args : List Value) (i : Nat) : Eval Scope :=
  bindReferences call (d.references.take i) (bindParameters d.parameters args .empty)

/-- The names that can be seen from a place. -/
def declaredAt (d : Document) (i : Nat) : List String :=
  d.parameters.map (·.name.value) ++ (d.references.take i).map (·.name.value)

/-- What all references of a document are bound to. -/
def outcomes (d : Document) (call : Dispatch) (args : List Value) (w : World) : List (Except Error Value) :=
  outcomesOf call d.references (bindParameters d.parameters args .empty) w

theorem evaluate_scopeAt (d : Document) (i : Nat) (call : Dispatch) (args : List Value) (node : Node) :
    d.evaluate call args node =
      (d.scopeAt call args i >>= bindReferences call (d.references.drop i)) >>= (d.sketch.run call · node) := by
  rw [scopeAt, ← bindReferences_append, List.take_append_drop]
  rfl

theorem outcomes_of_scopeAt (h : d.scopeAt call args i w = (.ok scope, w')) :
    ∃ values : List Value, (d.outcomes call args w).take i = values.map .ok ∧
      scope = (bindParameters d.parameters args .empty).bindAll
        (((d.references.take i).map (·.name.value)).zip values) := by
  obtain ⟨values, hvalues, -, hscope⟩ := outcomesOf_of_ok h
  rw [outcomesOf_take] at hvalues
  exact ⟨values, hvalues, hscope⟩

/-- What a reference is bound to does not change with the references behind it or with the chain. -/
theorem getElem?_outcomes_congr {d' : Document} (hparameters : d'.parameters = d.parameters)
    (hreferences : d'.references.take (i + 1) = d.references.take (i + 1)) :
    (d'.outcomes call args w)[i]? = (d.outcomes call args w)[i]? := by
  have htake : (d'.outcomes call args w).take (i + 1) = (d.outcomes call args w).take (i + 1) := by
    rw [outcomes, outcomes, ← outcomesOf_take, ← outcomesOf_take, hreferences, hparameters]
  have hi := congrArg (·[i]?) htake
  simpa using hi

/-- A name has a value where it is declared before, and the constants have one everywhere. -/
theorem lookup?_scopeAt (h : d.scopeAt call args i w = (.ok scope, w')) {x : String} :
    scope.lookup? x = none ↔ x ∉ d.declaredAt i ∧ x ≠ "PI" ∧ x ≠ "E" := by
  obtain ⟨values, -, hlength, rfl⟩ := outcomesOf_of_ok h
  have hempty : Assoc.get? Scope.empty.bindings x = none := rfl
  rw [Scope.lookup?_eq_none_iff, Scope.get?_bindAll_eq_none_iff, get?_bindParameters_eq_none_iff,
    List.map_fst_zip (by simp [hlength]), declaredAt, List.mem_append]
  tauto

end Document

/-! ## Arguments that are evaluated -/

/-- To run the steps is to evaluate the argument. -/
inductive Step.Asks (call : Dispatch) (scope : Scope) (arg : Arg) : List Step → Node → World → Prop
  | argument {name : Spanned String} {before after : List Arg} {values : List Value} {rest : List Step} {node : Node}
      {w : World} (hb : Arg.evalAll scope before = .ok values) :
      Asks call scope arg (.call name (before ++ arg :: after) :: rest) node w
  | inner {steps rest : List Step} {span : Span} {node : Node} {w : World}
      (h : Asks call scope arg steps (.empty ⟨w.next⟩) { w with next := w.next + 1 }) :
      Asks call scope arg (.nested steps span :: rest) node w
  | later {step : Step} {rest : List Step} {node built : Node} {w w' : World}
      (hs : step.run call scope node w = (.ok built, w')) (h : Asks call scope arg rest built w') :
      Asks call scope arg (step :: rest) node w

/-- To evaluate a document is to evaluate the argument, at a place and in a scope. -/
inductive Document.Asks (d : Document) (call : Dispatch) (args : List Value) (w : World) (arg : Arg) :
    Nat → Scope → Prop
  | value {i : Nat} {r : Reference} {scope : Scope} {w' : World} (hr : d.references[i]? = some r)
      (hbinding : r.binding = .plain arg) (hs : d.scopeAt call args i w = (.ok scope, w')) :
      Asks d call args w arg i scope
  | building {i : Nat} {r : Reference} {chain : Chain} {scope : Scope} {w' : World}
      (hr : d.references[i]? = some r) (hbinding : r.binding = .sketch chain)
      (hs : d.scopeAt call args i w = (.ok scope, w'))
      (h : Step.Asks call scope arg chain.steps (.empty ⟨w'.next + 1⟩) { w' with next := w'.next + 2 }) :
      Asks d call args w arg i scope
  | drawing {scope : Scope} {w' : World} (hs : d.scopeAt call args d.references.length w = (.ok scope, w'))
      (h : Step.Asks call scope arg d.sketch.steps (.empty ⟨w'.next⟩) { w' with next := w'.next + 1 }) :
      Asks d call args w arg d.references.length scope

variable {call : Dispatch} {scope : Scope} {arg : Arg} {e : Error} {node : Node} {w : World}

theorem Step.runAll_of_asks {steps : List Step} (h : Asks call scope arg steps node w)
    (ha : arg.eval scope = .error e) : ∃ w', runAll call scope steps node w = (.error e, w') := by
  induction h with
  | @argument _ _ _ _ _ _ w hb =>
    refine ⟨w, ?_⟩
    rw [Arg.evalAll_eq_mapM] at hb
    rw [runAll, run, Arg.evalAll_eq_mapM, mapM_eq_error_of_item hb ha]
    rfl
  | inner _ ih =>
    obtain ⟨w', hw⟩ := ih
    refine ⟨w', ?_⟩
    rw [runAll, run]
    exact Eval.bind_of_error (Eval.bind_of_ok (Eval.fresh_apply _) |>.trans (Eval.bind_of_error hw))
  | later hs _ ih =>
    obtain ⟨w', hw⟩ := ih
    exact ⟨w', by rw [runAll, Eval.bind_of_ok hs, hw]⟩

theorem Chain.run_of_asks {chain : Chain}
    (h : Step.Asks call scope arg chain.steps (.empty ⟨w.next⟩) { w with next := w.next + 1 })
    (ha : arg.eval scope = .error e) : ∃ w', chain.run call scope node w = (.error e, w') := by
  obtain ⟨w', hw⟩ := Step.runAll_of_asks h ha
  refine ⟨w', ?_⟩
  rw [Chain.run, Step.run]
  exact Eval.bind_of_ok (Eval.fresh_apply _) |>.trans (Eval.bind_of_error hw)

namespace Document

variable {d : Document} {args : List Value} {i : Nat} {w' : World}

theorem scopeAt_of_asks (h : d.Asks call args w arg i scope) : ∃ w', d.scopeAt call args i w = (.ok scope, w') := by
  cases h with
  | value _ _ hs | building _ _ hs _ | drawing hs _ => exact ⟨_, hs⟩

theorem evaluate_of_reference {r : Reference} (hr : d.references[i]? = some r)
    (hs : d.scopeAt call args i w = (.ok scope, w')) {w₁ : World}
    (hvalue : r.binding.value call scope w' = (.error e, w₁)) : d.evaluate call args node w = (.error e, w₁) := by
  have hdrop : d.references.drop i = r :: d.references.drop (i + 1) := by
    obtain ⟨hi, rfl⟩ := List.getElem?_eq_some_iff.mp hr
    exact List.drop_eq_getElem_cons hi
  rw [evaluate_scopeAt d i, hdrop]
  exact Eval.bind_of_error ((Eval.bind_of_ok hs).trans (Eval.bind_of_error hvalue))

/-- A document fails with the error of the first argument that fails. -/
theorem evaluate_of_asks (h : d.Asks call args w arg i scope) (ha : arg.eval scope = .error e) :
    ∃ w', d.evaluate call args node w = (.error e, w') := by
  cases h with
  | @value _ _ _ w' hr hbinding hs =>
    refine ⟨w', evaluate_of_reference hr hs ?_⟩
    rw [hbinding, Binding.value, ha]
    rfl
  | @building _ _ _ _ w' hr hbinding hs h =>
    -- The first id is for the node that the sketch is built on, the next for the chain itself.
    obtain ⟨w'', hw⟩ : ∃ w'', Chain.run _ call scope (.empty ⟨w'.next⟩) { w' with next := w'.next + 1 } =
        (.error e, w'') :=
      Chain.run_of_asks h ha
    refine ⟨w'', evaluate_of_reference hr hs ?_⟩
    rw [hbinding, Binding.value]
    exact Eval.bind_of_ok (Eval.fresh_apply _) |>.trans (Eval.bind_of_error hw)
  | drawing hs h =>
    obtain ⟨w', hw⟩ := Chain.run_of_asks h ha
    refine ⟨w', ?_⟩
    rw [evaluate_scopeAt d d.references.length, List.drop_length]
    exact Eval.bind_of_ok ((Eval.bind_of_ok hs).trans rfl) |>.trans hw

end Document

end Sketchwork
