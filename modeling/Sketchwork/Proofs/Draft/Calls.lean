/-
  Sketchwork.Proofs.Draft.Calls — what a source that evaluates can call.

  The calls that stand in the bodies of a draft form a graph that nothing checks beforehand:
  a source may call itself, or a name that is not there, and only the levels left tell a call
  that comes back from one that does not. But bodies do not choose. Every step of every chain
  is run, and every reference is bound, used or not. So one evaluation that succeeds has seen
  all that can be reached, each call with fewer levels left than the call around it.

  Proved: the calls of a body that runs to its end all succeed (`Feature.answers_of_run`); a
  call that succeeds with some levels left has no longer path of calls below it
  (`length_lt_of_answers`); so what a source reaches is in the draft, nothing of it reaches
  itself, and calls nest within the limit (`calls_of_evaluate`). Edits keep the names of a
  draft distinct (`nodup_names_editAll`), so each name stands for one source (`calls_iff`).
-/
import Mathlib.Data.List.Chain
import Mathlib.Data.List.Nodup
import Mathlib.Logic.Relation
import Sketchwork.Draft.Basic
import Sketchwork.Proofs.Feature.Depth
import Sketchwork.Proofs.Results

namespace Sketchwork

/-! ## Bodies -/

/-- Some call of a name succeeds. -/
def Dispatch.Answers (call : Dispatch) (name : String) : Prop :=
  ∃ args node w out w', call name args node w = (.ok out, w')

variable {call : Dispatch} {scope : Scope} {args : List Value} {node out : Node} {depth : Nat} {w w' : World}

mutual

theorem Step.answers_of_run : ∀ (step : Step) {node out : Node} {w w' : World},
    step.run call scope node w = (.ok out, w') → ∀ name ∈ step.callees, call.Answers name
  | .call called args, node, out, w, w', h => by
    rw [Step.run] at h
    obtain ⟨values, w₁, -, h⟩ := Eval.bind_eq_ok h
    intro name hname
    rw [callees, List.mem_singleton] at hname
    exact hname ▸ ⟨values, node, w₁, out, w', h⟩
  | .nested steps _, node, out, w, w', h => by
    rw [Step.run] at h
    obtain ⟨id, w₁, -, h⟩ := Eval.bind_eq_ok h
    obtain ⟨built, w₂, h, -⟩ := Eval.bind_eq_ok h
    rw [callees]
    exact answers_of_runAll steps h

theorem Step.answers_of_runAll : ∀ (steps : List Step) {node out : Node} {w w' : World},
    Step.runAll call scope steps node w = (.ok out, w') → ∀ name ∈ Step.allCallees steps, call.Answers name
  | [], _, _, _, _, _ => nofun
  | step :: steps, node, out, w, w', h => by
    rw [Step.runAll] at h
    obtain ⟨next, w₁, first, others⟩ := Eval.bind_eq_ok h
    intro name hname
    rw [allCallees, List.mem_append] at hname
    exact hname.elim (answers_of_run step first name) (answers_of_runAll steps others name)

end

theorem Chain.answers_of_run {chain : Chain} (h : chain.run call scope node w = (.ok out, w')) :
    ∀ name ∈ Step.allCallees chain.steps, call.Answers name := by
  rw [Chain.run, Step.run] at h
  obtain ⟨id, w₁, -, h⟩ := Eval.bind_eq_ok h
  obtain ⟨built, w₂, h, -⟩ := Eval.bind_eq_ok h
  exact Step.answers_of_runAll chain.steps h

theorem Reference.answers_of_value {r : Reference} {value : Value} (h : r.binding.value call scope w = (.ok value, w')) :
    ∀ name ∈ r.callees, call.Answers name := by
  unfold Reference.callees
  cases hb : r.binding with
  | plain arg => nofun
  | sketch chain =>
    rw [hb, Binding.value] at h
    obtain ⟨id, w₁, -, h⟩ := Eval.bind_eq_ok h
    obtain ⟨built, w₂, h, -⟩ := Eval.bind_eq_ok h
    exact Chain.answers_of_run h

/-- References are bound whether anything names them or not. -/
theorem Document.answers_of_bindReferences {rs : List Reference} {scope' : Scope}
    (h : bindReferences call rs scope w = (.ok scope', w')) : ∀ name ∈ rs.flatMap Reference.callees, call.Answers name := by
  induction rs generalizing scope w with
  | nil => nofun
  | cons r rs ih =>
    rw [bindReferences] at h
    obtain ⟨value, w₁, first, others⟩ := Eval.bind_eq_ok h
    intro name hname
    rw [List.flatMap_cons, List.mem_append] at hname
    exact hname.elim (Reference.answers_of_value first name) (ih others name)

theorem Move.answers_of_run {m : Move} (h : m.run call depth args node w = (.ok out, w')) :
    ∀ name ∈ m.callees, call.Answers name := by
  cases m with
  | call called operands =>
    obtain ⟨values, w₁, -, h⟩ := Eval.bind_eq_ok h
    intro name hname
    cases List.mem_singleton.mp hname
    exact ⟨values, node, w₁, out, w', h⟩
  | setFeature | blank | fail | probe => nofun

theorem Move.answers_of_foldlM {ms : List Move} (h : ms.foldlM (Move.run call depth args) node w = (.ok out, w')) :
    ∀ name ∈ ms.flatMap Move.callees, call.Answers name := by
  induction ms generalizing node w with
  | nil => nofun
  | cons m ms ih =>
    rw [List.foldlM_cons] at h
    obtain ⟨next, w₁, first, others⟩ := Eval.bind_eq_ok h
    intro name hname
    rw [List.flatMap_cons, List.mem_append] at hname
    exact hname.elim (Move.answers_of_run first name) (ih others name)

/-- A body that runs to its end has made all its calls. -/
theorem Feature.answers_of_run {feature : Feature} (h : feature.run call depth args node w = (.ok out, w')) :
    ∀ name ∈ feature.callees, call.Answers name := by
  cases feature with
  | builtin b => nofun
  | moves ms => exact Move.answers_of_foldlM h
  | document d =>
    obtain ⟨scope, w₁, references, sketch⟩ := Eval.bind_eq_ok h
    intro name hname
    rw [Feature.callees, List.mem_append] at hname
    exact hname.elim (Document.answers_of_bindReferences references name) (Chain.answers_of_run sketch name)

/-! ## Nested calls -/

namespace Registry

variable {registry : Registry} {levels : Nat} {f g : String}

/-- A call of `g` stands in the body of `f`. -/
def Nests (registry : Registry) (f g : String) : Prop :=
  ∃ feature, Assoc.get? registry f = some feature ∧ g ∈ feature.callees

/-- A call that succeeds found a body, and its body ran with one level less. -/
theorem answers_step (h : (registry.dispatch levels).Answers f) :
    ∃ feature below, Assoc.get? registry f = some feature ∧ levels = below + 1 ∧
      ∀ name ∈ feature.callees, (registry.dispatch below).Answers name := by
  obtain ⟨args, node, w, out, w', h⟩ := h
  cases hf : Assoc.get? registry f with
  | none => rw [dispatch_of_none hf] at h; cases h
  | some feature =>
    cases levels with
    | zero => rw [dispatch_zero hf] at h; cases h
    | succ below =>
      rw [dispatch_succ hf] at h
      obtain ⟨built, w₁, h, -⟩ := Eval.bind_eq_ok h
      exact ⟨feature, below, rfl, rfl, Feature.answers_of_run h⟩

theorem answers_of_nests (h : (registry.dispatch levels).Answers f) (hn : registry.Nests f g) :
    ∃ below, levels = below + 1 ∧ (registry.dispatch below).Answers g := by
  obtain ⟨feature, below, hf, rfl, answers⟩ := answers_step h
  obtain ⟨feature', hf', hg⟩ := hn
  rw [hf] at hf'
  cases hf'
  exact ⟨below, rfl, answers g hg⟩

theorem answers_of_transGen (h : (registry.dispatch levels).Answers f) (hg : Relation.TransGen registry.Nests f g) :
    ∃ below, below < levels ∧ (registry.dispatch below).Answers g := by
  induction hg with
  | single hn =>
    obtain ⟨below, rfl, hg⟩ := answers_of_nests h hn
    exact ⟨below, Nat.lt_succ_self below, hg⟩
  | tail _ hn ih =>
    obtain ⟨between, hlt, hb⟩ := ih
    obtain ⟨below, rfl, hg⟩ := answers_of_nests hb hn
    exact ⟨below, Nat.lt_of_succ_lt hlt, hg⟩

theorem answers_of_reflTransGen (h : (registry.dispatch levels).Answers f)
    (hg : Relation.ReflTransGen registry.Nests f g) : ∃ below, (registry.dispatch below).Answers g := by
  rcases Relation.reflTransGen_iff_eq_or_transGen.mp hg with rfl | hg
  · exact ⟨levels, h⟩
  · obtain ⟨below, -, h⟩ := answers_of_transGen h hg
    exact ⟨below, h⟩

/-- Around a cycle the levels would sink for ever. -/
theorem not_transGen_of_answers (h : (registry.dispatch levels).Answers f) : ¬Relation.TransGen registry.Nests f f := by
  intro hf
  induction levels using Nat.strongRecOn with
  | ind levels ih =>
    obtain ⟨below, hlt, h⟩ := answers_of_transGen h hf
    exact ih below hlt h

theorem length_lt_of_answers {path : List String} (h : (registry.dispatch levels).Answers f)
    (hp : (f :: path).IsChain registry.Nests) : path.length < levels := by
  induction path generalizing f levels with
  | nil =>
    obtain ⟨_, below, -, rfl, -⟩ := answers_step h
    exact Nat.succ_pos below
  | cons g path ih =>
    obtain ⟨first, others⟩ := List.isChain_cons_cons.mp hp
    obtain ⟨below, rfl, hg⟩ := answers_of_nests h first
    exact Nat.succ_lt_succ (ih hg others)

end Registry

/-! ## Sources of a draft -/

namespace Assoc

variable {α : Type} {m : Assoc α} {key : String}

theorem get?_cons (e : String × α) (m : Assoc α) (key : String) :
    get? (e :: m) key = if key = e.1 then some e.2 else get? m key := by
  by_cases h : e.1 = key
  · simp [get?, h]
  · simp [get?, h, Ne.symm h]

theorem mem_of_get? {value : α} (h : get? m key = some value) : (key, value) ∈ m := by
  obtain ⟨e, he, rfl⟩ := Option.map_eq_some_iff.mp h
  obtain rfl : e.1 = key := by simpa using List.find?_some he
  exact List.mem_of_find?_eq_some he

theorem get?_of_mem (h : m.keys.Nodup) {value : α} (hm : (key, value) ∈ m) : get? m key = some value := by
  induction m with
  | nil => cases hm
  | cons e m ih =>
    obtain ⟨absent, hnd⟩ := List.nodup_cons.mp h
    rcases List.mem_cons.mp hm with rfl | hm
    · rw [get?_cons, if_pos rfl]
    · rw [get?_cons, if_neg, ih hnd hm]
      rintro rfl
      exact absent (List.mem_map.mpr ⟨_, hm, rfl⟩)

theorem get?_reverse (h : m.keys.Nodup) (key : String) : get? m.reverse key = get? m key := by
  have reversed : (keys m.reverse).Nodup := by
    rw [keys, List.map_reverse]
    exact List.nodup_reverse.mpr h
  ext value
  exact ⟨fun hv => get?_of_mem h (List.mem_reverse.mp (mem_of_get? hv)),
    fun hv => get?_of_mem reversed (List.mem_reverse.mpr (mem_of_get? hv))⟩

theorem get?_insert (k : String) (value : α) (m : Assoc α) (key : String) :
    get? (insert k value m) key = if key = k then some value else get? m key := by
  split
  · rename_i h
    rw [h, get?_insert_self]
  · rename_i h
    exact get?_insert_of_ne h value m

theorem get?_append (m m' : Assoc α) (key : String) : get? (m ++ m') key = (get? m key).or (get? m' key) := by
  rw [get?, List.find?_append]
  cases h : m.find? fun e => e.1 == key <;> simp [get?, h]

theorem has_reverse (m : Assoc α) (key : String) : has m.reverse key = has m key :=
  List.any_reverse

theorem has_of_get? {value : α} (h : get? m key = some value) : m.has key = true :=
  List.any_eq_true.mpr ⟨_, mem_of_get? h, beq_self_eq_true key⟩

end Assoc

namespace Draft

variable {draft draft' : Draft} {name : String} {sketch : Sketch}

theorem qualified_inj {a b : String} : qualified a = qualified b ↔ a = b :=
  String.append_right_inj _

theorem label_ne_qualified (b : Builtin) (name : String) : b.label ≠ qualified name := by
  have head : b.label.toList.take 5 ≠ ['u', 's', 'e', 'r', '.'] := by
    cases b <;> decide
  intro h
  refine head ?_
  rw [h, qualified, String.toList_append]
  rfl

theorem get?_builtins_qualified (name : String) : Assoc.get? Registry.builtins (qualified name) = none := by
  rw [Assoc.get?, List.find?_eq_none.mpr fun e he => ?_]
  · rfl
  obtain ⟨b, -, rfl⟩ := List.mem_map.mp he
  simpa using label_ne_qualified b name

/-- What a draft registers under the names of its sources; a later source takes the place of an
    earlier one. -/
theorem get?_registry (draft : Draft) (name : String) :
    Assoc.get? draft.registry (qualified name) = (Assoc.get? draft.sources.reverse name).map Source.feature := by
  -- Sources are registered from the first to the last, behind whatever is registered already.
  have register (sources : Assoc Source) (registry : Registry) :
      Assoc.get? (sources.foldl (fun registry s => Registry.register (qualified s.1) s.2.feature registry) registry)
          (qualified name) =
        ((Assoc.get? sources.reverse name).map Source.feature).or (Assoc.get? registry (qualified name)) := by
    induction sources generalizing registry with
    | nil => rfl
    | cons s sources ih =>
      rw [List.foldl_cons, ih, Registry.register, Assoc.get?_insert, List.reverse_cons, Assoc.get?_append, Assoc.get?_cons]
      simp only [qualified_inj]
      split <;> cases Assoc.get? sources.reverse name <;> rfl
  rw [registry, register, get?_builtins_qualified, Option.or_none]

theorem has_of_get?_registry {feature : Feature}
    (h : Assoc.get? draft.registry (qualified name) = some feature) : draft.has name = true := by
  rw [get?_registry] at h
  obtain ⟨source, hs, -⟩ := Option.map_eq_some_iff.mp h
  rw [has, ← Assoc.has_reverse, Assoc.has_of_get? hs]

/-! ## Names stay distinct -/

theorem nodup_names_put (h : draft.names.Nodup) (name : String) (source : Source) :
    (draft.put name source).names.Nodup :=
  Assoc.insert_keys_nodup h

theorem nodup_names_edit {e : Edit} (h : draft.names.Nodup) (he : draft.edit e = .ok draft') :
    draft'.names.Nodup := by
  have erased (name : String) : ({ draft with sources := draft.sources.erase name } : Draft).names.Nodup :=
    h.sublist (List.filter_sublist.map _)
  cases e with
  | document name text =>
    rw [edit] at he
    split at he
    · cases he
      exact nodup_names_put h _ _
    · cases he
  | moves name ps ms =>
    cases he
    exact nodup_names_put h _ _
  | rename name new =>
    rw [edit] at he
    obtain ⟨source, -, he⟩ := exists_of_bind_eq_ok he
    cases he
    exact nodup_names_put (erased name) _ _
  | remove name =>
    rw [edit] at he
    obtain ⟨source, -, he⟩ := exists_of_bind_eq_ok he
    cases he
    exact erased name

theorem nodup_names_editAll (h : draft.names.Nodup) (edits : List Edit) : (draft.editAll edits).names.Nodup := by
  induction edits generalizing draft with
  | nil => exact h
  | cons e edits ih =>
    -- An edit that fails leaves the draft as it is.
    have next : ((draft.edit e).toOption.getD draft).names.Nodup := by
      cases he : draft.edit e with
      | error failure => exact h
      | ok edited => exact nodup_names_edit h he
    exact ih next

/-! ## Evaluation -/

theorem evaluate_of_source {source : Source} (h : draft.source name = .ok source) :
    draft.evaluate name args w =
      let called := Sketch.call ⟨.empty ⟨w.next⟩, 0⟩ draft.registry (qualified name) args { w with next := w.next + 1 }
      (called.1.mapError (.evaluation name), called.2) := by
  unfold evaluate
  rw [h]
  rfl

/-- A source that evaluates has been called with all levels left. -/
theorem answers_of_evaluate (h : draft.evaluate name args w = (.ok sketch, w')) :
    (draft.registry.dispatch maxDepth).Answers (qualified name) := by
  cases hs : draft.source name with
  | error e =>
    unfold evaluate at h
    rw [hs] at h
    cases h
  | ok source =>
    rw [evaluate_of_source hs] at h
    rcases hc : Sketch.call ⟨.empty ⟨w.next⟩, 0⟩ draft.registry (qualified name) args { w with next := w.next + 1 }
      with ⟨e | out, w₁⟩
    · rw [hc] at h
      cases h
    · obtain ⟨node, w₂, hcall, -⟩ := Eval.bind_eq_ok hc
      exact ⟨args, _, _, node, w₂, hcall⟩

/-! ## The law -/

/-- A call of `b` stands in the source `a`. -/
def Calls (draft : Draft) (a b : String) : Prop :=
  draft.registry.Nests (qualified a) (qualified b)

theorem calls_iff (h : draft.names.Nodup) (a b : String) :
    draft.Calls a b ↔ ∃ source, draft.sources.get? a = some source ∧ qualified b ∈ source.feature.callees := by
  rw [Calls, Registry.Nests, get?_registry, Assoc.get?_reverse h]
  simp only [Option.map_eq_some_iff, exists_exists_and_eq_and]

theorem calls_of_evaluate (h : draft.evaluate name args w = (.ok sketch, w')) :
    (∀ a, Relation.ReflTransGen draft.Calls name a → draft.has a = true ∧ ¬Relation.TransGen draft.Calls a a) ∧
      (∀ path : List String, (qualified name :: path).IsChain draft.registry.Nests →
        (qualified name :: path).length ≤ maxDepth) ∧
      (draft.names.Nodup → ∀ a b, draft.Calls a b ↔
        ∃ source, draft.sources.get? a = some source ∧ qualified b ∈ source.feature.callees) := by
  have hname := answers_of_evaluate h
  refine ⟨fun a ha => ?_, fun path hp => Registry.length_lt_of_answers hname hp, fun hd => calls_iff hd⟩
  obtain ⟨below, answers⟩ := Registry.answers_of_reflTransGen hname (ha.lift qualified fun _ _ hab => hab)
  obtain ⟨feature, -, hf, -⟩ := Registry.answers_step answers
  exact ⟨has_of_get?_registry hf,
    fun hcycle => Registry.not_transGen_of_answers answers (hcycle.lift qualified fun _ _ hab => hab)⟩

/-- A reference that nothing names, with a nested chain that calls another source. -/
theorem plate_reaches_hole :
    let hole : Document := ⟨[], [], ⟨[.call ⟨"hide", .point 0⟩ []], .point 0⟩⟩
    let plate : Document :=
      ⟨[], [⟨⟨"unused", .point 0⟩, .sketch ⟨[.nested [.call ⟨"user.hole", .point 0⟩ []] (.point 0)], .point 0⟩⟩],
        ⟨[.call ⟨"show", .point 0⟩ []], .point 0⟩⟩
    let draft : Draft := ⟨.default, [("plate", .document "" plate), ("hole", .document "" hole)]⟩
    (∃ sketch w', draft.evaluate "plate" [] ⟨0, []⟩ = (.ok sketch, w')) ∧ draft.Calls "plate" "hole" ∧
      draft.has "hole" = true ∧ ¬Relation.TransGen draft.Calls "hole" "hole" ∧
      ["user.plate", "user.hole", "hide"].length ≤ maxDepth := by
  intro hole plate draft
  obtain ⟨sketch, w', h⟩ : ∃ sketch w', draft.evaluate "plate" [] ⟨0, []⟩ = (.ok sketch, w') := ⟨_, _, rfl⟩
  obtain ⟨sources, paths, calls⟩ := calls_of_evaluate h
  have hole_of_plate : draft.Calls "plate" "hole" := by
    refine (calls (by decide) "plate" "hole").mpr ⟨_, rfl, ?_⟩
    simp [Source.feature, plate, Feature.callees, Reference.callees, Step.allCallees, Step.callees, qualified]
  have hide_of_hole : draft.registry.Nests "user.hole" "hide" := by
    refine ⟨.document hole, rfl, ?_⟩
    simp [hole, Feature.callees, Step.allCallees, Step.callees]
  obtain ⟨known, acyclic⟩ := sources "hole" (.single hole_of_plate)
  exact ⟨⟨sketch, w', h⟩, hole_of_plate, known, acyclic,
    paths ["user.hole", "hide"] (.cons_cons hole_of_plate (.cons_cons hide_of_hole (.singleton _)))⟩

end Draft

end Sketchwork
