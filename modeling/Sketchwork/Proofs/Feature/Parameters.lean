/-
  Sketchwork.Proofs.Feature.Parameters — what the chain of a document sees of its arguments.

  Arguments go to parameters by position, but a scope is keyed by name: of two parameters with one
  name the later one stays, and a reference of the name takes its place. Nothing rejects a second
  parameter of a name, as long as the two are not spelled alike as keys of one map.

  Proved: a name that neither a later parameter nor a reference declares again stands for the
  argument at the position of its parameter, or for the default if the argument is missing or null;
  arguments behind the last parameter, and a null at the end, change nothing
  (`Document.parameters_by_position`).
-/
import Sketchwork.Proofs.Document.Acceptance
import Sketchwork.Proofs.Document.Names
import Sketchwork.Proofs.Feature.Bindings

namespace Sketchwork

/-- What a parameter is bound to. -/
def Parameter.value (p : Parameter) (arg? : Option Value) : Value :=
  (arg?.filter fun arg => !arg.isNull).getD p.default.value

namespace Parameter

variable {p : Parameter}

theorem value_of_ne_null {arg : Value} (h : arg ≠ .null) : p.value (some arg) = arg := by
  have hnull : arg.isNull = false := by
    cases arg with
    | null => exact absurd rfl h
    | _ => rfl
  rw [value, Option.filter_some, hnull]
  rfl

theorem value_of_missing {arg? : Option Value} (h : arg? = none ∨ arg? = some .null) : p.value arg? = p.default.value := by
  rcases h with rfl | rfl <;> rfl

end Parameter

namespace Scope

variable {scope : Scope} {name : String}

theorem lookup_bindAll_of_not_mem {entries : List (String × Value)} (h : name ∉ entries.map (·.1)) :
    (scope.bindAll entries).lookup name = scope.lookup name := by
  induction entries generalizing scope with
  | nil => rfl
  | cons entry entries ih =>
    obtain ⟨hne, hmore⟩ := not_or.mp (mt List.mem_cons.mpr h)
    rw [bindAll, List.foldl_cons, ← bindAll, ih hmore, lookup_bind_of_ne hne]

end Scope

namespace Document

/-! ## Parameters -/

variable {ps : List Parameter} {args args' : List Value} {scope : Scope}

theorem bindParameters_cons (p : Parameter) (ps : List Parameter) (args : List Value) (scope : Scope) :
    bindParameters (p :: ps) args scope = bindParameters ps args.tail (scope.bind p.name.value (p.value args[0]?)) := by
  cases args with
  | nil => rfl
  | cons arg args =>
    rw [bindParameters]
    have hvalue : p.value (some arg) = if arg.isNull then p.default.value else arg := by
      cases arg <;> rfl
    rw [List.getElem?_cons_zero, hvalue]
    rfl

theorem lookup_bindParameters_of_not_mem {name : String} (h : name ∉ ps.map (·.name.value)) :
    (bindParameters ps args scope).lookup name = scope.lookup name := by
  induction ps generalizing args scope with
  | nil => rfl
  | cons p ps ih =>
    obtain ⟨hne, hmore⟩ := not_or.mp (mt List.mem_cons.mpr h)
    rw [bindParameters_cons, ih hmore, Scope.lookup_bind_of_ne hne]

/-- The last parameter of a name is bound to the argument at its position. -/
theorem lookup_bindParameters {i : Nat} {p : Parameter} (hp : ps[i]? = some p)
    (hlast : p.name.value ∉ (ps.drop (i + 1)).map (·.name.value)) :
    (bindParameters ps args scope).lookup p.name.value = .ok (p.value args[i]?) := by
  induction ps generalizing args scope i with
  | nil => cases hp
  | cons q ps ih =>
    rw [bindParameters_cons]
    cases i with
    | zero =>
      obtain rfl : q = p := Option.some_inj.mp hp
      have hmore : q.name.value ∉ ps.map (·.name.value) := hlast
      rw [lookup_bindParameters_of_not_mem hmore, Scope.lookup_bind_self]
    | succ i =>
      have hargs : args.tail[i]? = args[i + 1]? := List.getElem?_tail
      rw [ih hp hlast, hargs]

/-- Only what the parameters are bound to matters. -/
theorem bindParameters_congr (h : ∀ (i : Nat) (p : Parameter), ps[i]? = some p → p.value args[i]? = p.value args'[i]?) :
    bindParameters ps args scope = bindParameters ps args' scope := by
  induction ps generalizing args args' scope with
  | nil => rfl
  | cons p ps ih =>
    have htail : ∀ (i : Nat) (q : Parameter), ps[i]? = some q → q.value args.tail[i]? = q.value args'.tail[i]? := by
      intro i q hq
      rw [List.getElem?_tail, List.getElem?_tail]
      exact h (i + 1) q hq
    rw [bindParameters_cons, bindParameters_cons, h 0 p rfl, ih htail]

theorem bindParameters_take : bindParameters ps (args.take ps.length) scope = bindParameters ps args scope := by
  refine bindParameters_congr fun i p hp => ?_
  obtain ⟨hi, -⟩ := List.getElem?_eq_some_iff.mp hp
  rw [List.getElem?_take_of_lt hi]

theorem bindParameters_null : bindParameters ps (args ++ [.null]) scope = bindParameters ps args scope := by
  refine bindParameters_congr fun i p _ => ?_
  rcases Nat.lt_trichotomy i args.length with hlt | rfl | hgt
  · rw [List.getElem?_append_left hlt]
  · rw [List.getElem?_concat_length, List.getElem?_eq_none (Nat.le_refl _), Parameter.value_of_missing (.inr rfl),
      Parameter.value_of_missing (.inl rfl)]
  · rw [List.getElem?_eq_none (by simp; omega), List.getElem?_eq_none hgt.le]

/-! ## Documents -/

variable {d : Document} {call : Dispatch} {node : Node} {w w' : World}

theorem evaluate_congr (h : bindParameters d.parameters args .empty = bindParameters d.parameters args' .empty) :
    d.evaluate call args node = d.evaluate call args' node := by
  rw [evaluate, evaluate, h]

/-- Behind the references a name that none of them declares stands for what it is bound to as a
    parameter. -/
theorem lookup_of_scopeAt {name : String} {i : Nat} (h : d.scopeAt call args i w = (.ok scope, w'))
    (hname : name ∉ d.references.map (·.name.value)) :
    scope.lookup name = (bindParameters d.parameters args .empty).lookup name := by
  obtain ⟨values, -, hlength, rfl⟩ := outcomesOf_of_ok h
  refine Scope.lookup_bindAll_of_not_mem ?_
  rw [List.map_fst_zip (by simp [hlength])]
  intro hmem
  obtain ⟨r, hr, rfl⟩ := List.mem_map.mp hmem
  exact hname (List.mem_map_of_mem (List.mem_of_mem_take hr))

/-- The chain of a document runs in the scope behind its references. In this scope the name of a
    parameter that neither a later parameter nor a reference declares again, written with its sigil,
    is the argument at the position of the parameter, or the default if that is missing or null. No
    argument behind the last parameter changes what the document evaluates to, and no null at the
    end of the arguments does. -/
theorem parameters_by_position {text : String} {d : Document} (h : Document.read text = .ok d) (call : Dispatch)
    (args : List Value) :
    (∀ node, d.evaluate call args node = d.scopeAt call args d.references.length >>= (d.sketch.run call · node)) ∧
    (∀ (scope : Scope) (w w' : World), d.scopeAt call args d.references.length w = (.ok scope, w') →
      ∀ (i : Nat) (p : Parameter), d.parameters[i]? = some p →
        p.name.value ∉ (d.parameters.drop (i + 1)).map (·.name.value) →
        p.name.value ∉ d.references.map (·.name.value) → ∀ offset, ∃ e, Expr.read offset ('$' :: p.name.value.toList) = .ok e ∧
          (∀ arg, args[i]? = some arg → arg ≠ .null → e.eval scope = .ok arg) ∧
          (args[i]? = none ∨ args[i]? = some .null → e.eval scope = .ok p.default.value)) ∧
    (∀ node, d.evaluate call (args.take d.parameters.length) node = d.evaluate call args node) ∧
    ∀ node, d.evaluate call (args ++ [.null]) node = d.evaluate call args node := by
  refine ⟨fun node => ?_, ?_, fun node => evaluate_congr bindParameters_take, fun node => evaluate_congr bindParameters_null⟩
  · rw [evaluate_scopeAt d d.references.length, List.drop_length]
    exact congrArg (· >>= (d.sketch.run call · node)) (bind_pure _)
  intro scope w w' hscope i p hp hlast hreference offset
  obtain ⟨root, -, hroot⟩ : ∃ root, Item.read text.toList = .ok root ∧ ofItem root = .ok d := exists_of_bind_eq_ok h
  have hdeclared : p.name ∈ d.declared :=
    List.mem_append_left _ (List.mem_map_of_mem (List.mem_of_getElem? hp))
  obtain ⟨span, hread⟩ := Expr.read_sigil (isIdentifier_of_mem_declared hroot hdeclared) offset
  rw [String.ofList_toList] at hread
  have hvalue : (Expr.variable p.name.value span).eval scope = .ok (p.value args[i]?) := by
    rw [Expr.eval, lookup_of_scopeAt hscope hreference, lookup_bindParameters hp hlast]
  refine ⟨_, hread, fun arg harg hne => ?_, fun hmissing => ?_⟩
  · rw [hvalue, harg, Parameter.value_of_ne_null hne]
  · rw [hvalue, Parameter.value_of_missing hmissing]

/-- Two parameters of one name, which are spelled with and without the sigil. -/
def spelledTwice : Document :=
  ⟨[⟨⟨"a", .between 13 14⟩, .text "x"⟩, ⟨⟨"a", .between 20 21⟩, .text "y"⟩], [], ⟨[], .between 34 35⟩⟩

/-- A text with parameters and a sketch that nothing is reported of. -/
theorem read_of_parameters {text : String} {key key' : Spanned String} {value value' : Item} {span : Span}
    {ps : List Parameter} {chain : Chain} (hitem : Item.read text.toList = .ok (.map [(key, value), (key', value')] span))
    (hkey : key.value = "parameters") (hkey' : key'.value = "sketch") (hparameters : readParameters value = ⟨ps, []⟩)
    (hchain : readChain value' = ⟨chain, []⟩) : Document.read text = .ok ⟨ps, [], chain⟩ := by
  have hadd (s : Sections) : s.add (key, value) = _ := add_parameters s hkey
  have hadd' (s : Sections) : s.add (key', value') = _ := add_sketch s hkey'
  have hofItem : ofItem (.map [(key, value), (key', value')] span) = .ok ⟨ps, [], chain⟩ := by
    refine ofItem_map_eq_ok_iff.mpr ?_
    simp only [List.foldl_cons, List.foldl_nil, List.flatMap_cons, List.flatMap_nil, sectionFaults, hadd, hadd',
      hparameters, hchain]
    exact ⟨⟨rfl, rfl⟩, rfl⟩
  rw [Document.read, hitem]
  exact hofItem

theorem read_spelledTwice : Document.read "parameters: \x7ba: x, $a: y\x7d\nsketch: ~" = .ok spelledTwice := by
  let parameters : Item := .map [(⟨"a", .between 13 14⟩, .text "x" false (.between 16 17)),
    (⟨"$a", .between 19 21⟩, .text "y" false (.between 23 24))] (.between 12 25)
  have hlines : Line.ofDocument "parameters: \x7ba: x, $a: y\x7d\nsketch: ~".toList =
      ([⟨0, "parameters: \x7ba: x, $a: y\x7d".toList, 0⟩, ⟨0, "sketch: ~".toList, 26⟩], []) := by
    cbv
  have hroot : Block.ofLines [⟨0, "parameters: \x7ba: x, $a: y\x7d".toList, 0⟩, ⟨0, "sketch: ~".toList, 26⟩] =
      (.map [(⟨"parameters", .between 0 10⟩, parameters), (⟨"sketch", .between 26 32⟩, .null (.between 34 35))]
        (.between 0 35), []) := by
    cbv
  have hitem : Item.read "parameters: \x7ba: x, $a: y\x7d\nsketch: ~".toList = .ok (.map [
      (⟨"parameters", .between 0 10⟩, parameters), (⟨"sketch", .between 26 32⟩, .null (.between 34 35))]
        (.between 0 35)) := by
    rw [Item.read, hlines]
    dsimp only
    rw [hroot]
    rfl
  have hparameters : readParameters parameters = ⟨spelledTwice.parameters, []⟩ := by
    cbv
  exact read_of_parameters hitem rfl rfl hparameters rfl

/-- With an argument for the second parameter, without one, with a null for it, and with one more. -/
theorem parameters_by_position_spelledTwice :
    Document.read "parameters: \x7ba: x, $a: y\x7d\nsketch: ~" = .ok spelledTwice ∧ ∀ call w,
      (∃ scope e, spelledTwice.scopeAt call [.text "p", .text "q"] 0 w = (.ok scope, w) ∧
        Expr.read 0 ['$', 'a'] = .ok e ∧ e.eval scope = .ok (.text "q")) ∧
      (∃ scope e, spelledTwice.scopeAt call [.text "p", .null] 0 w = (.ok scope, w) ∧
        Expr.read 0 ['$', 'a'] = .ok e ∧ e.eval scope = .ok (.text "y")) ∧
      ∀ node, spelledTwice.evaluate call [.text "p", .text "q"] node =
        spelledTwice.evaluate call [.text "p", .text "q", .text "r"] node := by
  refine ⟨read_spelledTwice, fun call w => ⟨?_, ?_, ?_⟩⟩
  · obtain ⟨-, hname, -⟩ := parameters_by_position read_spelledTwice call [.text "p", .text "q"]
    obtain ⟨e, he, hgiven, -⟩ := hname _ w w rfl 1 _ rfl (by simp [spelledTwice]) (by simp [spelledTwice]) 0
    exact ⟨_, e, rfl, he, hgiven _ rfl (by simp)⟩
  · obtain ⟨-, hname, -⟩ := parameters_by_position read_spelledTwice call [.text "p", .null]
    obtain ⟨e, he, -, hmissing⟩ := hname _ w w rfl 1 _ rfl (by simp [spelledTwice]) (by simp [spelledTwice]) 0
    exact ⟨_, e, rfl, he, hmissing (.inr rfl)⟩
  · obtain ⟨-, -, hmore, -⟩ := parameters_by_position read_spelledTwice call [.text "p", .text "q", .text "r"]
    exact hmore

/-- The name of a parameter does not always stand for the argument at its position or its default,
    not even where no reference declares it. -/
theorem later_parameter_replaces :
    ¬∀ (text : String) (d : Document) (call : Dispatch) (args : List Value) (i : Nat) (p : Parameter) (scope : Scope)
        (w w' : World) (e : Expr), Document.read text = .ok d → d.parameters[i]? = some p →
      p.name.value ∉ d.references.map (·.name.value) → d.scopeAt call args d.references.length w = (.ok scope, w') →
      Expr.read 0 ('$' :: p.name.value.toList) = .ok e → args[i]? = none → e.eval scope = .ok p.default.value := by
  intro hall
  have hidentifier : isIdentifier ['a'] = true := by decide
  obtain ⟨span, he⟩ := Expr.read_sigil hidentifier 0
  have hdefault : (Except.ok (.text "y") : Except Error Value) = .ok (.text "x") := hall _ spelledTwice (fun _ _ node => pure node) [] 0 _ _ ⟨0, []⟩ ⟨0, []⟩ _ read_spelledTwice rfl
    (by simp [spelledTwice]) rfl he rfl
  injection hdefault with hdefault
  injection hdefault with hdefault
  exact absurd hdefault (by decide)

end Document

end Sketchwork
