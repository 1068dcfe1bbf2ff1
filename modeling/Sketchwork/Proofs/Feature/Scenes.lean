/-
  Sketchwork.Proofs.Feature.Scenes — what can be drawn with the built-in features.

  Scenes start empty and grow by calls. The arguments of a call are what arguments evaluate to
  in a scope of scenes drawn so far and of other such values, so whole scenes, their children
  and their entities come back by name and by member. `Drawn` and `Taken` say this of scenes and
  of values, each in terms of the other.

  Proved: evaluation makes well-formed values of well-formed ones (`Arg.wellFormed_eval`); so
  every scene that is drawn has curves with two vertices or more and a bulge for every vertex,
  and regions with loops, all of them closed; and nothing that its features read of a curve by
  index is out of range (`curves_of_drawn`).
-/
import Sketchwork.Proofs.Builtin.WellFormed
import Sketchwork.Proofs.Feature.Framing
import Sketchwork.Proofs.Geometry.Indexing

namespace Sketchwork

/-! ## Members -/

theorem Value.wellFormed_ofPoint (p : Position) : (Value.ofPoint p).WellFormed :=
  .entity trivial

theorem Value.wellFormed_ofPoints (ps : List Position) : (Value.ofPoints ps).WellFormed := by
  refine .list fun v hv => ?_
  obtain ⟨p, -, rfl⟩ := List.mem_map.mp hv
  exact Value.wellFormed_ofPoint p

theorem Value.wellFormed_curves {curves : List Polycurve} (h : ∀ c ∈ curves, c.WellFormed) :
    (Value.list (curves.map fun c => .entity (.polycurve c))).WellFormed := by
  refine .list fun v hv => ?_
  obtain ⟨curve, hc, rfl⟩ := List.mem_map.mp hv
  exact .entity (h curve hc)

namespace Entity

variable {e : Entity} {name : String} {v : Value}

theorem WellFormed.of_ownMember? (he : e.WellFormed) (h : e.ownMember? name = some v) : v.WellFormed := by
  unfold ownMember? at h
  split at h
  case h_14 loops =>
    cases h
    cases loops with
    | nil => exact .null
    | cons outer holes => exact .entity (he.2 outer List.mem_cons_self).1
  case h_15 loops =>
    cases h
    exact Value.wellFormed_curves fun c hc => (he.2 c (List.mem_of_mem_tail hc)).1
  case h_13 curve =>
    cases h
    refine .list fun v hv => ?_
    obtain ⟨edge, -, rfl⟩ := List.mem_map.mp hv
    exact .entity trivial
  all_goals
    first
    | cases h; exact .number _
    | cases h; exact .bool _
    | cases h; exact .text _
    | cases h; exact Value.wellFormed_ofPoint _
    | cases h

theorem WellFormed.of_member? (he : e.WellFormed) (h : e.member? name = some v) : v.WellFormed := by
  unfold member? at h
  cases hown : e.ownMember? name with
  | some own =>
    rw [hown] at h
    cases h
    exact he.of_ownMember? hown
  | none =>
    rw [hown] at h
    have h : e.commonMember? name = some v := h
    unfold commonMember? at h
    split at h
    · cases h
      exact Value.wellFormed_ofPoints _
    · cases h
      exact .text _
    · cases h

end Entity

namespace Value

variable {v out : Value} {name : String}

theorem wellFormed_of_entityMember {e : Entity} (he : e.WellFormed) (h : entityMember e name = .ok out) :
    out.WellFormed := by
  unfold entityMember at h
  split at h
  · rename_i value hmember
    cases h
    exact he.of_member? hmember
  · cases h

theorem wellFormed_of_sketchMember {node : Node} (hn : node.WellFormed) (h : sketchMember node name = .ok out) :
    out.WellFormed := by
  obtain ⟨hentities, hchildren⟩ := Node.every_iff.mp hn
  unfold sketchMember at h
  split at h
  · cases h
    exact .text _
  · cases h
    refine .list fun v hv => ?_
    obtain ⟨e, he, rfl⟩ := List.mem_map.mp hv
    exact .entity (hentities e he)
  · cases h
    refine .list fun v hv => ?_
    obtain ⟨child, hc, rfl⟩ := List.mem_map.mp hv
    exact .sketch (hchildren child hc)
  · split at h
    · cases h
    · rename_i e hfirst
      have he : e.WellFormed := Node.Every.of_firstEntity? hn hfirst
      split at h
      · cases h
        exact .entity he
      · exact wellFormed_of_entityMember he h

theorem WellFormed.of_get? {entries : List (String × Value)} (h : ∀ entry ∈ entries, entry.2.WellFormed)
    (hg : Assoc.get? entries name = some out) : out.WellFormed := by
  obtain ⟨entry, he, rfl⟩ := Option.map_eq_some_iff.mp hg
  exact h entry (List.mem_of_find?_eq_some he)

theorem WellFormed.of_member (hv : v.WellFormed) (h : v.member name = .ok out) : out.WellFormed := by
  unfold member at h
  split at h
  · cases hv with
    | sketch hn => exact wellFormed_of_sketchMember hn h
  · cases hv with
    | entity he => exact wellFormed_of_entityMember he h
  · split at h
    · rename_i value hget
      cases h
      cases hv with
      | map hentries => exact .of_get? hentries hget
    · cases h
  · cases h
    exact .number _
  · cases h
    exact .number _
  · cases h

theorem WellFormed.of_index {place : Value} (hv : v.WellFormed) (h : v.index place = .ok out) : out.WellFormed := by
  unfold index at h
  split at h
  · split at h
    · rename_i item hitem
      cases h
      obtain ⟨i, -, hi⟩ := Option.bind_eq_some_iff.mp hitem
      cases hv with
      | list hitems => exact hitems _ (List.mem_of_getElem? hi)
    · cases h
  · split at h
    · rename_i value hget
      cases h
      cases hv with
      | map hentries => exact .of_get? hentries hget
    · cases h
  · cases h

/-! ## Operators -/

theorem wellFormed_unary {op : UnaryOp} (h : unary op v = .ok out) : out.WellFormed := by
  cases op with
  | negate =>
    obtain ⟨x, -, h⟩ := exists_of_bind_eq_ok h
    cases h
    exact .number _
  | not =>
    cases h
    exact .bool _

theorem wellFormed_arithmetic {op : BinaryOp} {a b : Float} (h : arithmetic op a b = .ok out) : out.WellFormed := by
  cases op with
  | divide | remainder =>
    unfold arithmetic at h
    dsimp only at h
    split at h
    · cases h
    · cases h
      exact .number _
  | add | subtract | multiply | power => cases h; exact .number _
  | less | lessEqual | greater | greaterEqual | equal | notEqual | and | or => cases h; exact .bool _

theorem WellFormed.binary {op : BinaryOp} {a b : Value} (ha : a.WellFormed) (hb : b.WellFormed)
    (h : Value.binary op a b = .ok out) : out.WellFormed := by
  unfold Value.binary at h
  split at h
  · cases h; exact .bool _
  · cases h; exact .bool _
  · cases h; exact .text _
  · cases h; exact .text _
  · cases h
    cases ha with
    | list has =>
      cases hb with
      | list hbs =>
        refine .list fun v hv => ?_
        rcases List.mem_append.mp hv with hv | hv
        · exact has v hv
        · exact hbs v hv
  · exact wellFormed_arithmetic h
  · split at h
    · cases h; exact .bool _
    · cases h
  · cases h

end Value

/-! ## Evaluation -/

/-- All bindings are well formed. -/
def Scope.WellFormed (scope : Scope) : Prop :=
  ∀ name v, scope.bindings.get? name = some v → v.WellFormed

theorem Scope.WellFormed.of_lookup {scope : Scope} (hs : scope.WellFormed) {name : String} {v : Value}
    (h : scope.lookup name = .ok v) : v.WellFormed := by
  unfold Scope.lookup at h
  split at h
  · rename_i value hvalue
    cases h
    unfold Scope.lookup? at hvalue
    cases hbound : scope.bindings.get? name with
    | some bound =>
      rw [hbound] at hvalue
      cases hvalue
      exact hs name v hbound
    | none =>
      rw [hbound] at hvalue
      obtain ⟨x, -, rfl⟩ := Option.map_eq_some_iff.mp hvalue
      exact .number x
  · cases h

variable {scope : Scope}

mutual

theorem Expr.wellFormed_eval (hs : scope.WellFormed) : ∀ {e : Expr} {v : Value}, e.eval scope = .ok v → v.WellFormed
  | .null _, _, h => by cases h; exact .null
  | .bool _ _, _, h => by cases h; exact .bool _
  | .number _ _, _, h => by cases h; exact .number _
  | .text _ _, _, h => by cases h; exact .text _
  | .variable name _, _, h => hs.of_lookup h
  | .list items _, _, h => by
    obtain ⟨values, hvalues, h⟩ := exists_of_bind_eq_ok h
    cases h
    exact .list (wellFormed_evalAll hs hvalues)
  | .unary op operand _, _, h => by
    obtain ⟨value, -, h⟩ := exists_of_bind_eq_ok h
    exact Value.wellFormed_unary h
  | .binary op left right _, v, h => by
    rw [eval] at h
    obtain ⟨a, ha, h⟩ := exists_of_bind_eq_ok h
    have hbool {x : Except Error Value} (h : (do return Value.bool (← x).truthy) = .ok v) : v.WellFormed := by
      obtain ⟨b, -, h⟩ := exists_of_bind_eq_ok h
      cases h
      exact .bool _
    split at h
    · split at h
      · exact hbool h
      · cases h; exact .bool _
    · split at h
      · cases h; exact .bool _
      · exact hbool h
    · obtain ⟨b, hb, h⟩ := exists_of_bind_eq_ok h
      exact (wellFormed_eval hs ha).binary (wellFormed_eval hs hb) h
  | .conditional condition yes no _, _, h => by
    obtain ⟨value, -, h⟩ := exists_of_bind_eq_ok h
    split at h
    · exact wellFormed_eval hs h
    · exact wellFormed_eval hs h
  | .call function args _, _, h => by
    obtain ⟨values, -, h⟩ := exists_of_bind_eq_ok h
    split at h
    · cases h; exact .number _
    · cases h
  | .index target place _, _, h => by
    obtain ⟨value, hvalue, h⟩ := exists_of_bind_eq_ok h
    obtain ⟨at_, -, h⟩ := exists_of_bind_eq_ok h
    exact (wellFormed_eval hs hvalue).of_index h
  | .member target name _, _, h => by
    obtain ⟨value, hvalue, h⟩ := exists_of_bind_eq_ok h
    exact (wellFormed_eval hs hvalue).of_member h

theorem Expr.wellFormed_evalAll (hs : scope.WellFormed) : ∀ {items : List Expr} {values : List Value},
    Expr.evalAll scope items = .ok values → ∀ v ∈ values, v.WellFormed
  | [], _, h => by cases h; nofun
  | item :: items, _, h => by
    obtain ⟨value, hvalue, h⟩ := exists_of_bind_eq_ok h
    obtain ⟨values, hvalues, h⟩ := exists_of_bind_eq_ok h
    cases h
    exact List.forall_mem_cons.mpr ⟨wellFormed_eval hs hvalue, wellFormed_evalAll hs hvalues⟩

end

mutual

theorem Literal.wellFormed_value : ∀ l : Literal, l.value.WellFormed
  | .null => .null
  | .bool _ => .bool _
  | .number _ => .number _
  | .text _ => .text _
  | .list items => .list (wellFormed_values items)
  | .map entries => .map (wellFormed_entryValues entries)

theorem Literal.wellFormed_values : ∀ items : List Literal, ∀ v ∈ Literal.values items, v.WellFormed
  | [] => nofun
  | item :: items => List.forall_mem_cons.mpr ⟨wellFormed_value item, wellFormed_values items⟩

theorem Literal.wellFormed_entryValues :
    ∀ entries : List (String × Literal), ∀ entry ∈ Literal.entryValues entries, entry.2.WellFormed
  | [] => nofun
  | (_, item) :: entries => List.forall_mem_cons.mpr ⟨wellFormed_value item, wellFormed_entryValues entries⟩

end

mutual

/-- Arguments evaluate to well-formed values where the names are bound to such. -/
theorem Arg.wellFormed_eval (hs : scope.WellFormed) : ∀ {arg : Arg} {v : Value}, arg.eval scope = .ok v → v.WellFormed
  | .literal l, _, h => by cases h; exact l.wellFormed_value
  | .expr e, _, h => Expr.wellFormed_eval hs h
  | .list items, _, h => by
    obtain ⟨values, hvalues, h⟩ := exists_of_bind_eq_ok h
    cases h
    exact .list (wellFormed_evalAll hs hvalues)
  | .map entries, _, h => by
    obtain ⟨values, hvalues, h⟩ := exists_of_bind_eq_ok h
    cases h
    exact .map (wellFormed_evalEntries hs hvalues)

theorem Arg.wellFormed_evalAll (hs : scope.WellFormed) : ∀ {items : List Arg} {values : List Value},
    Arg.evalAll scope items = .ok values → ∀ v ∈ values, v.WellFormed
  | [], _, h => by cases h; nofun
  | item :: items, _, h => by
    obtain ⟨value, hvalue, h⟩ := exists_of_bind_eq_ok h
    obtain ⟨values, hvalues, h⟩ := exists_of_bind_eq_ok h
    cases h
    exact List.forall_mem_cons.mpr ⟨wellFormed_eval hs hvalue, wellFormed_evalAll hs hvalues⟩

theorem Arg.wellFormed_evalEntries (hs : scope.WellFormed) :
    ∀ {entries : List (String × Arg)} {values : List (String × Value)},
      Arg.evalEntries scope entries = .ok values → ∀ entry ∈ values, entry.2.WellFormed
  | [], _, h => by cases h; nofun
  | (_, item) :: entries, _, h => by
    obtain ⟨value, hvalue, h⟩ := exists_of_bind_eq_ok h
    obtain ⟨values, hvalues, h⟩ := exists_of_bind_eq_ok h
    cases h
    exact List.forall_mem_cons.mpr ⟨wellFormed_eval hs hvalue, wellFormed_evalEntries hs hvalues⟩

end

/-! ## Scenes that are drawn -/

mutual

/-- A scene that calls of built-in features draw, from an empty one on. -/
inductive Drawn : Node → Prop
  | empty (id : NodeId) : Drawn (.empty id)
  | call {receiver out : Sketch} {name : String} {values : List Value} {w w' : World} :
      Drawn receiver.node → (∀ v ∈ values, Taken v) → receiver.call .builtins name values w = (.ok out, w') →
      Drawn out.node

/-- A value that such a call may be given: a scene that is drawn, or what an argument evaluates to
    where all names are bound to such values. -/
inductive Taken : Value → Prop
  | scene {node : Node} : Drawn node → Taken (.sketch node)
  | eval {scope : Scope} {arg : Arg} {v : Value} :
      (∀ name bound, scope.bindings.get? name = some bound → Taken bound) → arg.eval scope = .ok v → Taken v

end

theorem Registry.exists_of_get?_builtins {name : String} {feature : Feature}
    (h : Assoc.get? Registry.builtins name = some feature) : ∃ b, feature = .builtin b := by
  obtain ⟨entry, he, rfl⟩ := Option.map_eq_some_iff.mp h
  obtain ⟨b, -, rfl⟩ := List.mem_map.mp (List.mem_of_find?_eq_some he)
  exact ⟨b, rfl⟩

theorem Node.WellFormed.stamp {node : Node} (h : node.WellFormed) (name : String) : (node.stamp name).WellFormed := by
  unfold Node.stamp
  split
  · exact h
  · exact Node.Every.congr h rfl rfl

/-- A call keeps scenes well formed. -/
theorem wellFormed_of_call {receiver out : Sketch} {name : String} {values : List Value} {w w' : World}
    (hn : receiver.node.WellFormed) (hv : ∀ v ∈ values, v.WellFormed)
    (h : receiver.call .builtins name values w = (.ok out, w')) : out.node.WellFormed := by
  cases hr : Assoc.get? Registry.builtins name with
  | none =>
    unfold Sketch.call at h
    rw [Registry.dispatch_of_none hr] at h
    cases h
  | some feature =>
    have hinput : Node.WellFormed { receiver.node with provenance := .stamped name } := Node.Every.congr hn rfl rfl
    obtain ⟨b, rfl⟩ := Registry.exists_of_get?_builtins hr
    rw [call_builtin hr] at h
    split at h
    · cases h
    · cases hrun : b.run ⟨w.next⟩ { receiver.node with provenance := .stamped name } values with
      | error e => rw [hrun] at h; cases h
      | ok node =>
        rw [hrun] at h
        cases h
        exact (Builtin.wellFormed_of_run hinput hv hrun).stamp name

mutual

theorem Drawn.wellFormed : ∀ {node : Node}, Drawn node → node.WellFormed
  | _, .empty id => Node.every_empty id
  | _, .call hreceiver hvalues h => wellFormed_of_call hreceiver.wellFormed (fun v hv => (hvalues v hv).wellFormed) h

theorem Taken.wellFormed : ∀ {v : Value}, Taken v → v.WellFormed
  | _, .scene h => .sketch h.wellFormed
  | _, .eval hscope h => Arg.wellFormed_eval (fun name bound hb => (hscope name bound hb).wellFormed) h

end

/-- In a scene that is drawn curves have two vertices and a bulge for each, and regions have loops, all of
    them closed. Nothing is out of range that is read of the curves, or of the strands that joining makes of
    them, by index. -/
theorem curves_of_drawn {node : Node} (h : Drawn node) (order : Node.Order) :
    (∀ e ∈ node.subtreeEntities order, e.WellFormed) ∧
      (∀ e ∈ node.subtreeEntities order, ∀ curve ∈ Shapes.outlines e,
        curve.bulges.length = curve.vertices.length ∧ curve.Indexed) ∧
      (∀ piece ∈ (node.subtreeEntities order).filterMap Curves.joinable?, piece.Indexed) ∧
      ∀ s rest, Strand.Reached ((node.subtreeEntities order).filterMap Curves.joinable?) s rest →
        s.Aligned ∧ s.extendAt? rest = some (s.extend? rest) := by
  have hnode := h.wellFormed
  have hpieces := Builtin.wellFormed_of_mem_joinable node order
  refine ⟨fun e he => Node.Every.of_mem_subtreeEntities hnode he, ?_, fun piece hp => (hpieces piece hp).indexed, ?_⟩
  · intro e he curve hc
    exact ⟨by simp, ((Node.Every.of_mem_subtreeEntities hnode he).of_mem_outlines hc).indexed⟩
  · intro s rest hs
    obtain ⟨haligned, hrest⟩ := hs.aligned hpieces
    exact ⟨haligned, Strand.extendAt?_eq haligned hrest⟩

theorem curves_of_a_polycurve_that_is_drawn :
    let corner (x y : Float) : Literal := .list [.number x, .number y]
    let values : List Value := [(corner 0.0 0.0).value, (corner 1.0 0.0).value]
    ∃ out w', Sketch.call ⟨.empty ⟨0⟩, 0⟩ .builtins "polycurve" values ⟨1, []⟩ = (.ok out, w') ∧
      ∀ e ∈ out.node.subtreeEntities .pre, e.WellFormed := by
  intro corner values
  have taken (l : Literal) : Taken l.value := by
    have hscope : ∀ name bound, Scope.empty.bindings.get? name = some bound → Taken bound := nofun
    exact .eval hscope (rfl : Arg.eval .empty (.literal l) = .ok l.value)
  have hvalues : ∀ v ∈ values, Taken v :=
    List.forall_mem_cons.mpr ⟨taken _, List.forall_mem_singleton.mpr (taken _)⟩
  have h : Sketch.call ⟨.empty ⟨0⟩, 0⟩ .builtins "polycurve" values ⟨1, []⟩ = (.ok _, _) := rfl
  exact ⟨_, _, h, (curves_of_drawn (.call (.empty ⟨0⟩) hvalues h) .pre).1⟩

end Sketchwork
