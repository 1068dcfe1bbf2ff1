/-
  Sketchwork.Proofs.Evaluation.Names — which variables an expression looks up.

  Not every variable of an expression is looked up: `and` and `or` may stop at their first
  operand, a conditional takes one branch, and nothing is evaluated behind an error. `Reaches`
  says which parts of an expression are evaluated with it in a scope.

  Proved: the error of a part that is reached is the error of the whole (`eval_of_reaches`); and
  an expression or an argument reports that a variable is unbound exactly when it reaches this
  variable and the scope does not bind it (`Expr.eval_eq_unbound_iff`, `Arg.eval_eq_unbound_iff`).
-/
import Sketchwork.Proofs.Evaluation.Errors
import Sketchwork.Proofs.Results

namespace Sketchwork

/-! ## Scopes -/

namespace Scope

variable {scope : Scope} {name x : String}

theorem lookup_eq_error_iff {e : Error} :
    scope.lookup name = .error e ↔ e = .unbound name ∧ scope.lookup? name = none := by
  unfold lookup
  cases scope.lookup? name with
  | some value => simp
  | none => simp [eq_comm]

theorem lookup_of_none (h : scope.lookup? name = none) : scope.lookup name = .error (.unbound name) :=
  lookup_eq_error_iff.mpr ⟨rfl, h⟩

theorem lookup_bind_self (value : Value) : (scope.bind x value).lookup x = .ok value := by
  rw [lookup, lookup?, bind, Assoc.get?_insert_self]
  rfl

theorem lookup_bind_of_ne (h : name ≠ x) (value : Value) : (scope.bind x value).lookup name = scope.lookup name := by
  rw [lookup, lookup, lookup?, lookup?, bind, Assoc.get?_insert_of_ne h]

theorem constant?_eq_none_iff : constant? name = none ↔ name ≠ "PI" ∧ name ≠ "E" := by
  unfold constant?
  split <;> simp_all

theorem lookup?_eq_none_iff :
    scope.lookup? name = none ↔ scope.bindings.get? name = none ∧ name ≠ "PI" ∧ name ≠ "E" := by
  rw [lookup?, ← constant?_eq_none_iff]
  cases scope.bindings.get? name <;> simp

end Scope

/-! ## Parts that are evaluated -/

/-- Whether an operator looks at its second operand behind a first one. -/
def BinaryOp.goesOn (op : BinaryOp) (first : Value) : Bool :=
  match op with
  | .and => first.truthy
  | .or => !first.truthy
  | _ => true

namespace Expr

mutual

/-- The variables of an expression, once for every place they stand at. -/
def names : Expr → List String
  | .null _ | .bool _ _ | .number _ _ | .text _ _ => []
  | .variable name _ => [name]
  | .list items _ => allNames items
  | .unary _ operand _ => names operand
  | .binary _ left right _ => names left ++ names right
  | .conditional condition yes no _ => names condition ++ (names yes ++ names no)
  | .call _ args _ => allNames args
  | .index target place _ => names target ++ names place
  | .member target _ _ => names target

def allNames : List Expr → List String
  | [] => []
  | item :: items => names item ++ allNames items

end

/-- To evaluate the first is to evaluate the second. -/
inductive Reaches (scope : Scope) : Expr → Expr → Prop
  | self (e : Expr) : Reaches scope e e
  | item {before after : List Expr} {item d : Expr} {span : Span} {values : List Value}
      (hb : evalAll scope before = .ok values) (h : Reaches scope item d) :
      Reaches scope (.list (before ++ item :: after) span) d
  | operand {op : UnaryOp} {operand d : Expr} {span : Span} (h : Reaches scope operand d) :
      Reaches scope (.unary op operand span) d
  | left {op : BinaryOp} {left right d : Expr} {span : Span} (h : Reaches scope left d) :
      Reaches scope (.binary op left right span) d
  | right {op : BinaryOp} {left right d : Expr} {span : Span} {first : Value} (hl : left.eval scope = .ok first)
      (hop : op.goesOn first = true) (h : Reaches scope right d) : Reaches scope (.binary op left right span) d
  | condition {condition yes no d : Expr} {span : Span} (h : Reaches scope condition d) :
      Reaches scope (.conditional condition yes no span) d
  | yes {condition yes no d : Expr} {span : Span} {answer : Value} (hc : condition.eval scope = .ok answer)
      (ha : answer.truthy = true) (h : Reaches scope yes d) : Reaches scope (.conditional condition yes no span) d
  | no {condition yes no d : Expr} {span : Span} {answer : Value} (hc : condition.eval scope = .ok answer)
      (ha : answer.truthy = false) (h : Reaches scope no d) : Reaches scope (.conditional condition yes no span) d
  | argument {function : Spanned String} {before after : List Expr} {item d : Expr} {span : Span} {xs : List Float}
      (hb : evalNumbers scope function.value before = .ok xs) (h : Reaches scope item d) :
      Reaches scope (.call function (before ++ item :: after) span) d
  | target {target place d : Expr} {span : Span} (h : Reaches scope target d) :
      Reaches scope (.index target place span) d
  | place {target place d : Expr} {span : Span} {value : Value} (ht : target.eval scope = .ok value)
      (h : Reaches scope place d) : Reaches scope (.index target place span) d
  | owner {target d : Expr} {name : Spanned String} {span : Span} (h : Reaches scope target d) :
      Reaches scope (.member target name span) d

variable {scope : Scope} {e d : Expr} {err : Error} {x : String}

theorem mem_allNames {items : List Expr} : x ∈ allNames items ↔ ∃ item ∈ items, x ∈ names item := by
  induction items with
  | nil => simp [allNames]
  | cons item items ih => simp [allNames, ih]

theorem mem_allNames_of_item {before after : List Expr} (h : x ∈ e.names) : x ∈ allNames (before ++ e :: after) :=
  mem_allNames.mpr ⟨e, by simp, h⟩

/-- What is reached is a part. -/
theorem names_of_reaches (h : Reaches scope e d) (hx : x ∈ d.names) : x ∈ e.names := by
  induction h with
  | self e => exact hx
  | item _ _ ih | argument _ _ ih => exact mem_allNames_of_item (ih hx)
  | operand _ ih | owner _ ih => exact ih hx
  | left _ ih | condition _ ih | target _ ih => exact List.mem_append_left _ (ih hx)
  | right _ _ _ ih | place _ _ ih => exact List.mem_append_right _ (ih hx)
  | yes _ _ _ ih => exact List.mem_append_right _ (List.mem_append_left _ (ih hx))
  | no _ _ _ ih => exact List.mem_append_right _ (List.mem_append_right _ (ih hx))

theorem evalAll_eq_mapM (items : List Expr) : evalAll scope items = items.mapM (eval scope) := by
  induction items with
  | nil => rfl
  | cons item items ih =>
    rw [evalAll, List.mapM_cons, ih]

theorem evalNumbers_eq_mapM (function : String) (items : List Expr) :
    evalNumbers scope function items =
      items.mapM fun item => item.eval scope >>= fun value => value.asNumber function := by
  induction items with
  | nil => rfl
  | cons item items ih =>
    rw [evalNumbers, List.mapM_cons, ih, bind_assoc]

/-- The error of what is reached is the error of the whole. -/
theorem eval_of_reaches (h : Reaches scope e d) (hd : d.eval scope = .error err) : e.eval scope = .error err := by
  induction h with
  | self e => exact hd
  | item hb _ ih =>
    rw [evalAll_eq_mapM] at hb
    rw [eval, evalAll_eq_mapM, mapM_eq_error_of_item hb (ih hd)]
    rfl
  | operand _ ih | left _ ih | condition _ ih | target _ ih | owner _ ih =>
    rw [eval, ih hd]
    rfl
  | @right op _ _ _ _ _ hl hop _ ih =>
    rw [eval, hl, ih hd]
    cases op with
    | and => exact if_pos hop
    | or => exact if_neg (by simpa [BinaryOp.goesOn] using hop)
    | _ => rfl
  | yes hc ha _ ih =>
    rw [eval, hc]
    exact (if_pos ha).trans (ih hd)
  | no hc ha _ ih =>
    rw [eval, hc]
    exact (if_neg (Bool.eq_false_iff.mp ha)).trans (ih hd)
  | argument hb _ ih =>
    rw [evalNumbers_eq_mapM] at hb
    rw [eval, evalNumbers_eq_mapM, mapM_eq_error_of_item hb (by rw [ih hd]; rfl)]
    rfl
  | place ht _ ih =>
    rw [eval, ht, ih hd]
    rfl

/-- An operator does not report a name: what reports it is one of its operands. -/
theorem unbound_of_binary {op : BinaryOp} {left right : Expr} {span : Span}
    (h : (binary op left right span).eval scope = .error (.unbound x)) :
    left.eval scope = .error (.unbound x) ∨
      ∃ first, left.eval scope = .ok first ∧ op.goesOn first = true ∧ right.eval scope = .error (.unbound x) := by
  rw [eval] at h
  obtain h | ⟨first, hl, h⟩ := cases_of_bind_eq_error h
  · exact .inl h
  refine .inr ⟨first, hl, ?_⟩
  have of_bool (h : (do return Value.bool (← right.eval scope).truthy) = Except.error (.unbound x)) :
      right.eval scope = .error (.unbound x) := by
    obtain h | ⟨_, -, h⟩ := cases_of_bind_eq_error h
    · exact h
    · cases h
  cases op with
  | and =>
    by_cases hf : first.truthy = true
    · exact ⟨hf, of_bool ((if_pos hf).symm.trans h)⟩
    · cases (if_neg hf).symm.trans h
  | or =>
    by_cases hf : first.truthy = true
    · cases (if_pos hf).symm.trans h
    · exact ⟨by simpa [BinaryOp.goesOn] using hf, of_bool ((if_neg hf).symm.trans h)⟩
  | _ =>
    obtain h | ⟨_, -, h⟩ := cases_of_bind_eq_error h
    · exact ⟨rfl, h⟩
    · exact absurd h ((Value.nameless_binary _ _ _).ne_unbound x)

-- Operators, members and functions report what is wrong with values, so the report of a name comes
-- from a part. The parts before it have values, which is what makes it a part that is reached.

mutual

theorem reaches_of_unbound : ∀ {e : Expr}, e.eval scope = .error (.unbound x) →
    ∃ span, Reaches scope e (.variable x span) ∧ scope.lookup? x = none
  | .null _, h | .bool _ _, h | .number _ _, h | .text _ _, h => by cases h
  | .variable name span, h => by
    obtain ⟨⟨⟩, hx⟩ := Scope.lookup_eq_error_iff.mp h
    exact ⟨span, .self _, hx⟩
  | .list items _, h => by
    rw [eval, evalAll_eq_mapM] at h
    obtain h | ⟨_, -, h⟩ := cases_of_bind_eq_error h
    · obtain ⟨before, item, after, values, hitems, hb, h⟩ := exists_of_mapM_eq_error h
      obtain ⟨span, hr, hx⟩ := item_reaches_of_unbound items (by simp [hitems]) h
      subst hitems
      exact ⟨span, .item ((evalAll_eq_mapM before).trans hb) hr, hx⟩
    · cases h
  | .unary op operand _, h => by
    rw [eval] at h
    obtain h | ⟨_, -, h⟩ := cases_of_bind_eq_error h
    · obtain ⟨span, hr, hx⟩ := reaches_of_unbound h
      exact ⟨span, .operand hr, hx⟩
    · exact absurd h ((Value.nameless_unary _ _).ne_unbound x)
  | .binary op left right _, h => by
    obtain h | ⟨first, hf, hop, h⟩ := unbound_of_binary h
    · obtain ⟨span, hr, hx⟩ := reaches_of_unbound h
      exact ⟨span, .left hr, hx⟩
    · obtain ⟨span, hr, hx⟩ := reaches_of_unbound h
      exact ⟨span, .right hf hop hr, hx⟩
  | .conditional condition yes no _, h => by
    rw [eval] at h
    obtain h | ⟨answer, hc, h⟩ := cases_of_bind_eq_error h
    · obtain ⟨span, hr, hx⟩ := reaches_of_unbound h
      exact ⟨span, .condition hr, hx⟩
    · by_cases ha : answer.truthy = true
      · obtain ⟨span, hr, hx⟩ := reaches_of_unbound ((if_pos ha).symm.trans h)
        exact ⟨span, .yes hc ha hr, hx⟩
      · obtain ⟨span, hr, hx⟩ := reaches_of_unbound ((if_neg ha).symm.trans h)
        exact ⟨span, .no hc (Bool.eq_false_iff.mpr ha) hr, hx⟩
  | .call function args _, h => by
    rw [eval, evalNumbers_eq_mapM] at h
    obtain h | ⟨xs, -, h⟩ := cases_of_bind_eq_error h
    · obtain ⟨before, item, after, xs, hargs, hb, h⟩ := exists_of_mapM_eq_error h
      obtain h | ⟨_, -, h⟩ := cases_of_bind_eq_error h
      · obtain ⟨span, hr, hx⟩ := item_reaches_of_unbound args (by simp [hargs]) h
        subst hargs
        exact ⟨span, .argument ((evalNumbers_eq_mapM _ before).trans hb) hr, hx⟩
      · exact absurd h ((Value.nameless_asNumber _ _).ne_unbound x)
    · cases hf : Functions.call function.value xs with
      | ok _ => rw [hf] at h; cases h
      | error _ => rw [hf] at h; cases h
  | .index target place _, h => by
    rw [eval] at h
    obtain h | ⟨value, ht, h⟩ := cases_of_bind_eq_error h
    · obtain ⟨span, hr, hx⟩ := reaches_of_unbound h
      exact ⟨span, .target hr, hx⟩
    · obtain h | ⟨_, -, h⟩ := cases_of_bind_eq_error h
      · obtain ⟨span, hr, hx⟩ := reaches_of_unbound h
        exact ⟨span, .place ht hr, hx⟩
      · exact absurd h ((Value.nameless_index _ _).ne_unbound x)
  | .member target _ _, h => by
    rw [eval] at h
    obtain h | ⟨_, -, h⟩ := cases_of_bind_eq_error h
    · obtain ⟨span, hr, hx⟩ := reaches_of_unbound h
      exact ⟨span, .owner hr, hx⟩
    · exact absurd h ((Value.nameless_member _ _).ne_unbound x)

theorem item_reaches_of_unbound : ∀ (items : List Expr) {item : Expr}, item ∈ items →
    item.eval scope = .error (.unbound x) →
    ∃ span, Reaches scope item (.variable x span) ∧ scope.lookup? x = none
  | _ :: _, _, .head _, h => reaches_of_unbound h
  | _ :: items, _, .tail _ hi, h => item_reaches_of_unbound items hi h

end

/-- An expression reports a name exactly when it comes to look it up and finds nothing. -/
theorem eval_eq_unbound_iff :
    e.eval scope = .error (.unbound x) ↔ (∃ span, Reaches scope e (.variable x span)) ∧ scope.lookup? x = none := by
  constructor
  · intro h
    obtain ⟨span, hr, hx⟩ := reaches_of_unbound h
    exact ⟨⟨span, hr⟩, hx⟩
  · rintro ⟨⟨span, hr⟩, hx⟩
    exact eval_of_reaches hr (Scope.lookup_of_none hx)

end Expr

/-! ## Arguments -/

namespace Arg

mutual

/-- The variables of the expressions in an argument. -/
def names : Arg → List String
  | .literal _ => []
  | .expr e => e.names
  | .list items => allNames items
  | .map entries => entryNames entries

def allNames : List Arg → List String
  | [] => []
  | item :: items => names item ++ allNames items

def entryNames : List (String × Arg) → List String
  | [] => []
  | (_, item) :: entries => names item ++ entryNames entries

end

/-- To evaluate the argument is to evaluate the expression. -/
inductive Reaches (scope : Scope) : Arg → Expr → Prop
  | expr {e d : Expr} (h : e.Reaches scope d) : Reaches scope (.expr e) d
  | item {before after : List Arg} {item : Arg} {d : Expr} {values : List Value}
      (hb : evalAll scope before = .ok values) (h : Reaches scope item d) :
      Reaches scope (.list (before ++ item :: after)) d
  | entry {before after : List (String × Arg)} {key : String} {item : Arg} {d : Expr}
      {values : List (String × Value)} (hb : evalEntries scope before = .ok values) (h : Reaches scope item d) :
      Reaches scope (.map (before ++ (key, item) :: after)) d

variable {scope : Scope} {a : Arg} {d : Expr} {err : Error} {x : String}

theorem evalAll_eq_mapM (items : List Arg) : evalAll scope items = items.mapM (eval scope) := by
  induction items with
  | nil => rfl
  | cons item items ih =>
    rw [evalAll, List.mapM_cons, ih]

theorem evalEntries_eq_mapM (entries : List (String × Arg)) :
    evalEntries scope entries = entries.mapM fun entry => entry.2.eval scope >>= fun value => .ok (entry.1, value) := by
  induction entries with
  | nil => rfl
  | cons entry entries ih =>
    rw [evalEntries, List.mapM_cons, ih, bind_assoc]
    rfl

theorem eval_of_reaches (h : Reaches scope a d) (hd : d.eval scope = .error err) : a.eval scope = .error err := by
  induction h with
  | expr h => exact Expr.eval_of_reaches h hd
  | item hb _ ih =>
    rw [evalAll_eq_mapM] at hb
    rw [eval, evalAll_eq_mapM, mapM_eq_error_of_item hb (ih hd)]
    rfl
  | entry hb _ ih =>
    rw [evalEntries_eq_mapM] at hb
    rw [eval, evalEntries_eq_mapM, mapM_eq_error_of_item hb (by rw [ih hd]; rfl)]
    rfl

mutual

theorem reaches_of_unbound : ∀ {a : Arg}, a.eval scope = .error (.unbound x) →
    ∃ span, Reaches scope a (.variable x span) ∧ scope.lookup? x = none
  | .literal _, h => by cases h
  | .expr e, h => by
    obtain ⟨span, hr, hx⟩ := Expr.reaches_of_unbound h
    exact ⟨span, .expr hr, hx⟩
  | .list items, h => by
    rw [eval, evalAll_eq_mapM] at h
    obtain h | ⟨_, -, h⟩ := cases_of_bind_eq_error h
    · obtain ⟨before, item, after, values, hitems, hb, h⟩ := exists_of_mapM_eq_error h
      obtain ⟨span, hr, hx⟩ := item_reaches_of_unbound items (by simp [hitems]) h
      subst hitems
      exact ⟨span, .item ((evalAll_eq_mapM before).trans hb) hr, hx⟩
    · cases h
  | .map entries, h => by
    rw [eval, evalEntries_eq_mapM] at h
    obtain h | ⟨_, -, h⟩ := cases_of_bind_eq_error h
    · obtain ⟨before, entry, after, values, hentries, hb, h⟩ := exists_of_mapM_eq_error h
      obtain h | ⟨_, -, h⟩ := cases_of_bind_eq_error h
      · obtain ⟨span, hr, hx⟩ := entry_reaches_of_unbound entries (by simp [hentries]) h
        subst hentries
        exact ⟨span, .entry ((evalEntries_eq_mapM before).trans hb) hr, hx⟩
      · cases h
    · cases h

theorem item_reaches_of_unbound : ∀ (items : List Arg) {item : Arg}, item ∈ items →
    item.eval scope = .error (.unbound x) →
    ∃ span, Reaches scope item (.variable x span) ∧ scope.lookup? x = none
  | _ :: _, _, .head _, h => reaches_of_unbound h
  | _ :: items, _, .tail _ hi, h => item_reaches_of_unbound items hi h

theorem entry_reaches_of_unbound : ∀ (entries : List (String × Arg)) {entry : String × Arg}, entry ∈ entries →
    entry.2.eval scope = .error (.unbound x) →
    ∃ span, Reaches scope entry.2 (.variable x span) ∧ scope.lookup? x = none
  | (_, _) :: _, _, .head _, h => reaches_of_unbound h
  | (_, _) :: entries, _, .tail _ hi, h => entry_reaches_of_unbound entries hi h

end

theorem mem_allNames {items : List Arg} : x ∈ allNames items ↔ ∃ item ∈ items, x ∈ names item := by
  induction items with
  | nil => simp [allNames]
  | cons item items ih => simp [allNames, ih]

theorem mem_entryNames {entries : List (String × Arg)} :
    x ∈ entryNames entries ↔ ∃ entry ∈ entries, x ∈ names entry.2 := by
  induction entries with
  | nil => simp [entryNames]
  | cons entry entries ih => simp [entryNames, ih]

theorem names_of_reaches (h : Reaches scope a d) (hx : x ∈ d.names) : x ∈ a.names := by
  induction h with
  | expr h => exact Expr.names_of_reaches h hx
  | item _ _ ih => exact mem_allNames.mpr ⟨_, by simp, ih hx⟩
  | @entry _ _ key item _ _ _ _ ih => exact mem_entryNames.mpr ⟨(key, item), by simp, ih hx⟩

/-- An argument reports a name exactly when it comes to look it up and finds nothing. -/
theorem eval_eq_unbound_iff :
    a.eval scope = .error (.unbound x) ↔ (∃ span, Reaches scope a (.variable x span)) ∧ scope.lookup? x = none := by
  constructor
  · intro h
    obtain ⟨span, hr, hx⟩ := reaches_of_unbound h
    exact ⟨⟨span, hr⟩, hx⟩
  · rintro ⟨⟨span, hr⟩, hx⟩
    exact eval_of_reaches hr (Scope.lookup_of_none hx)

end Arg

end Sketchwork
