/-
  Sketchwork.Proofs.Draft.Locality — an evaluation sees only the sources it can reach.

  Every source of a draft is registered before one of them is called, so drafts that differ
  anywhere evaluate with different registries. But a body has no other way to a feature than
  the names that stand in it. What a registry holds under names that cannot be reached is
  never looked up, and neither is the order that it holds them in.

  Proved: a body runs alike with two ways to call that do the same for the names it calls
  (`Feature.run_congr`); two registries that hold the same under all that a name reaches call
  it alike, on every level (`Registry.dispatch_congr`); so two drafts, whatever edits they come
  from, evaluate a source alike when they hold the same under every name that it reaches
  (`evaluate_eq_of_reach`).
-/
import Sketchwork.Proofs.Draft.Edits

namespace Sketchwork

variable {call call' : Dispatch}

/-! ## Bodies -/

/-- Two ways to call do the same for some names. -/
def Dispatch.AgreeOn (call call' : Dispatch) (names : List String) : Prop :=
  ∀ name ∈ names, call name = call' name

namespace Dispatch.AgreeOn

variable {names more : List String}

theorem left (h : call.AgreeOn call' (names ++ more)) : call.AgreeOn call' names :=
  fun name hname => h name (List.mem_append_left more hname)

theorem right (h : call.AgreeOn call' (names ++ more)) : call.AgreeOn call' more :=
  fun name hname => h name (List.mem_append_right names hname)

end Dispatch.AgreeOn

mutual

theorem Step.run_congr (scope : Scope) : ∀ step : Step, call.AgreeOn call' step.callees →
    step.run call scope = step.run call' scope
  | .call name args, h => by
    have same : call name.value = call' name.value := h name.value (List.mem_singleton_self _)
    funext node
    rw [run, run, same]
  | .nested steps span, h => by
    funext node
    rw [run, run, runAll_congr scope steps h]

theorem Step.runAll_congr (scope : Scope) : ∀ steps : List Step, call.AgreeOn call' (Step.allCallees steps) →
    Step.runAll call scope steps = Step.runAll call' scope steps
  | [], _ => rfl
  | step :: steps, h => by
    funext node
    rw [runAll, runAll, run_congr scope step h.left, runAll_congr scope steps h.right]

end

theorem Chain.run_congr {chain : Chain} (scope : Scope) (h : call.AgreeOn call' (Step.allCallees chain.steps)) :
    chain.run call scope = chain.run call' scope :=
  Step.run_congr scope (.nested chain.steps chain.span) h

theorem Reference.value_congr {r : Reference} (scope : Scope) (h : call.AgreeOn call' r.callees) :
    r.binding.value call scope = r.binding.value call' scope := by
  unfold Reference.callees at h
  cases hb : r.binding with
  | plain arg => rfl
  | sketch chain =>
    rw [hb] at h
    rw [Binding.value, Binding.value, Chain.run_congr scope h]

theorem Document.bindReferences_congr {rs : List Reference} (h : call.AgreeOn call' (rs.flatMap Reference.callees)) :
    bindReferences call rs = bindReferences call' rs := by
  induction rs with
  | nil => rfl
  | cons r rs ih =>
    rw [List.flatMap_cons] at h
    funext scope
    rw [bindReferences, bindReferences, Reference.value_congr scope h.left, ih h.right]

theorem Move.run_congr {m : Move} (depth : Nat) (args : List Value) (node : Node)
    (h : call.AgreeOn call' m.callees) : m.run call depth args node = m.run call' depth args node := by
  cases m with
  | call name operands =>
    have same : call name = call' name := h name (List.mem_singleton_self name)
    rw [run, run, same]
  | setFeature | blank | fail | probe => rfl

theorem Move.foldlM_congr {ms : List Move} (depth : Nat) (args : List Value) (node : Node)
    (h : call.AgreeOn call' (ms.flatMap Move.callees)) :
    ms.foldlM (Move.run call depth args) node = ms.foldlM (Move.run call' depth args) node := by
  induction ms generalizing node with
  | nil => rfl
  | cons m ms ih =>
    rw [List.flatMap_cons] at h
    rw [List.foldlM_cons, List.foldlM_cons, Move.run_congr depth args node h.left]
    exact bind_congr fun next => ih next h.right

/-- A body calls nothing but its callees. -/
theorem Feature.run_congr {feature : Feature} (h : call.AgreeOn call' feature.callees) (depth : Nat) (args : List Value)
    (node : Node) : feature.run call depth args node = feature.run call' depth args node := by
  cases feature with
  | builtin b => rfl
  | document d =>
    rw [run, run, Document.evaluate, Document.evaluate, Document.bindReferences_congr h.left]
    exact bind_congr fun scope => by rw [Chain.run_congr scope h.right]
  | moves ms => exact Move.foldlM_congr depth args node h

/-! ## Registries -/

namespace Registry

variable {registry registry' : Registry} {f g : String}

/-- A name is called alike in two registries that hold the same under all that it reaches. -/
theorem dispatch_congr (h : ∀ g, Relation.ReflTransGen registry.Nests f g →
    Assoc.get? registry g = Assoc.get? registry' g) (levels : Nat) :
    registry.dispatch levels f = registry'.dispatch levels f := by
  induction levels generalizing f with
  | zero =>
    have same := h f .refl
    funext args node
    cases hf : Assoc.get? registry f with
    | none => rw [dispatch_of_none hf, dispatch_of_none (same.symm.trans hf)]
    | some feature => rw [dispatch_zero hf, dispatch_zero (same.symm.trans hf)]
  | succ levels ih =>
    have same := h f .refl
    funext args node
    cases hf : Assoc.get? registry f with
    | none => rw [dispatch_of_none hf, dispatch_of_none (same.symm.trans hf)]
    | some feature =>
      have below : Dispatch.AgreeOn (registry.dispatch levels) (registry'.dispatch levels) feature.callees :=
        fun g hg => ih fun k hk => h k (.head ⟨feature, hf, hg⟩ hk)
      rw [dispatch_succ hf, dispatch_succ (same.symm.trans hf), Feature.run_congr below]

end Registry

/-! ## Drafts -/

namespace Draft

variable {draft draft' : Draft} {name : String}

/-- Two drafts hold the same under a name, or both nothing; texts aside. -/
def SameAt (draft draft' : Draft) (name : String) : Prop :=
  (draft.sources.get? name).map Source.feature = (draft'.sources.get? name).map Source.feature

/-- Names outside the namespace of the user stand for built-in features, whatever the sources are. -/
theorem get?_registry_of_ne {f : String} (h : ∀ a, f ≠ qualified a) :
    Assoc.get? draft.registry f = Assoc.get? Registry.builtins f := by
  have register (sources : Assoc Source) (registry : Registry) :
      Assoc.get? (sources.foldl (fun registry s => Registry.register (qualified s.1) s.2.feature registry) registry) f =
        Assoc.get? registry f := by
    induction sources generalizing registry with
    | nil => rfl
    | cons s sources ih => rw [List.foldl_cons, ih, Registry.register, Assoc.get?_insert, if_neg (h s.1)]
  exact register draft.sources Registry.builtins

/-- Built-in features call nothing, so a call that stands anywhere stands in a source. -/
theorem exists_of_nests {f g : String} (h : draft.registry.Nests f g) : ∃ a, f = qualified a := by
  by_contra hf
  obtain ⟨feature, hfeature, hg⟩ := h
  rw [get?_registry_of_ne (not_exists.mp hf)] at hfeature
  obtain ⟨b, -, hb⟩ := List.mem_map.mp (Assoc.mem_of_get? hfeature)
  cases hb
  cases hg

/-- What a source reaches is a source that it reaches through sources, or no source at all. -/
theorem reach_cases {f : String} (h : Relation.ReflTransGen draft.registry.Nests (qualified name) f) :
    (∃ a, f = qualified a ∧ Relation.ReflTransGen draft.Calls name a) ∨ ∀ a, f ≠ qualified a := by
  induction h with
  | refl => exact .inl ⟨name, rfl, .refl⟩
  | @tail f g _ hn ih =>
    obtain ⟨b, rfl⟩ := exists_of_nests hn
    obtain ⟨a, ha, reach⟩ : ∃ a, qualified b = qualified a ∧ Relation.ReflTransGen draft.Calls name a :=
      ih.resolve_right fun hb => hb b rfl
    rw [qualified_inj.mp ha] at hn
    by_cases hg : ∃ c, g = qualified c
    · obtain ⟨c, rfl⟩ := hg
      exact .inl ⟨c, rfl, reach.tail hn⟩
    · exact .inr (not_exists.mp hg)

theorem get?_registry_of_nodup (h : draft.names.Nodup) (name : String) :
    Assoc.get? draft.registry (qualified name) = (draft.sources.get? name).map Source.feature := by
  rw [get?_registry, Assoc.get?_reverse h]

theorem evaluate_of_unknown (h : draft.sources.get? name = none) (args : List Value) (w : World) :
    draft.evaluate name args w = (.error (.unknownSource name), w) := by
  unfold evaluate source
  rw [h]
  rfl

/-- In two drafts whose names are distinct a source evaluates alike when they hold the same under
    every name that it reaches. -/
theorem evaluate_congr (hd : draft.names.Nodup) (hd' : draft'.names.Nodup)
    (h : ∀ a, Relation.ReflTransGen draft.Calls name a → draft.SameAt draft' a) (args : List Value) (w : World) :
    draft.evaluate name args w = draft'.evaluate name args w := by
  have called : draft.registry.dispatch maxDepth (qualified name) = draft'.registry.dispatch maxDepth (qualified name) := by
    refine Registry.dispatch_congr (fun f hf => ?_) maxDepth
    rcases reach_cases hf with ⟨a, rfl, reach⟩ | hf
    · rw [get?_registry_of_nodup hd, get?_registry_of_nodup hd']
      exact h a reach
    · rw [get?_registry_of_ne hf, get?_registry_of_ne hf]
  have here : draft.SameAt draft' name := h name .refl
  unfold SameAt at here
  cases hs : draft.sources.get? name with
  | none =>
    rw [hs] at here
    rw [evaluate_of_unknown hs, evaluate_of_unknown (Option.map_eq_none_iff.mp here.symm)]
  | some source =>
    rw [hs] at here
    obtain ⟨source', hs', -⟩ := Option.map_eq_some_iff.mp here.symm
    rw [evaluate_of_source (source_of_get?_some hs), evaluate_of_source (source_of_get?_some hs')]
    simp only [Sketch.call, Nat.sub_zero, called]

/-- Whatever edits two drafts come from, a source evaluates alike in both when they hold the same
    under every name that it reaches. -/
theorem evaluate_eq_of_reach {config config' : Config} {edits edits' : List Edit} {name : String}
    (h : ∀ a, Relation.ReflTransGen ((empty config).editAll edits).Calls name a →
      ((empty config).editAll edits).SameAt ((empty config').editAll edits') a) (args : List Value) (w : World) :
    ((empty config).editAll edits).evaluate name args w = ((empty config').editAll edits').evaluate name args w :=
  evaluate_congr (nodup_names_made config edits) (nodup_names_made config' edits') h args w

/-- The same two sources, added in another order, one of them under another name first, and beside
    a third that nothing reaches. -/
theorem plate_evaluates_beside_others :
    let edits : List Edit := [.document "hole" "sketch:\n", .document "plate" "sketch:\n- user.hole:\n"]
    let edits' : List Edit := [.document "plate" "sketch:\n- user.hole:\n", .document "disc" "sketch:\n",
      .moves "loop" [] [.call "user.loop" []], .rename "disc" "hole"]
    (∀ a, Relation.ReflTransGen ((empty .default).editAll edits).Calls "plate" a →
      ((empty .default).editAll edits).SameAt ((empty .default).editAll edits') a) ∧
    ((empty .default).editAll edits').names = ["plate", "loop", "hole"] ∧
    ((empty .default).editAll edits).evaluate "plate" [] ⟨0, []⟩ =
      ((empty .default).editAll edits').evaluate "plate" [] ⟨0, []⟩ := by
  intro edits edits'
  let hole : Document := ⟨[], [], ⟨[], .point 7⟩⟩
  let plate : Document := ⟨[], [], ⟨[.call ⟨"user.hole", .sized 10 9⟩ []], .sized 8 12⟩⟩
  have readHole : Document.read "sketch:\n" = .ok hole := read_emptyChain
  have readPlate : Document.read "sketch:\n- user.hole:\n" = .ok plate := by cbv
  have sources : ((empty .default).editAll edits).sources =
      [("hole", .document "sketch:\n" hole), ("plate", .document "sketch:\n- user.hole:\n" plate)] := by
    simp only [editAll, edits, List.foldl, edit, readHole, readPlate]
    rfl
  have sources' : ((empty .default).editAll edits').sources =
      [("plate", .document "sketch:\n- user.hole:\n" plate), ("loop", .moves [] [.call "user.loop" []]),
        ("hole", .document "sketch:\n" hole)] := by
    simp only [editAll, edits', List.foldl, edit, readHole, readPlate]
    rfl
  have reach : ∀ a, Relation.ReflTransGen ((empty .default).editAll edits).Calls "plate" a → a = "plate" ∨ a = "hole" := by
    intro a ha
    induction ha with
    | refl => exact .inl rfl
    | tail _ hcall ih =>
      obtain ⟨source, hs, hmem⟩ := (calls_iff (nodup_names_made _ _) _ _).mp hcall
      rw [sources] at hs
      rcases ih with rfl | rfl
      · cases hs
        exact .inr (qualified_inj.mp (List.mem_singleton.mp hmem))
      · cases hs
        cases hmem
  have same : ∀ a, Relation.ReflTransGen ((empty .default).editAll edits).Calls "plate" a →
      ((empty .default).editAll edits).SameAt ((empty .default).editAll edits') a := by
    intro a ha
    rw [SameAt, sources, sources']
    rcases reach a ha with rfl | rfl
    · rfl
    · rfl
  refine ⟨same, ?_, evaluate_eq_of_reach same [] ⟨0, []⟩⟩
  rw [names, sources']
  rfl

end Draft

end Sketchwork
