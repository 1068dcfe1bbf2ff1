/-
  Sketchwork.Proofs.Feature.Depth — how deep calls nest.

  `State.Fits d` is the invariant of a run that started on a sketch at depth `d`: every sketch
  that is worked on, that waits in a frame or that is handed back is at `d` and one more for
  every call under it, and no call was entered at the limit. Nothing else bounds a run, so the
  law rests on every place where a body takes a new sketch.

  Proved: a call runs to its end; its bodies run at depths above its receiver's and up to the
  limit; what it returns is at the depth of its receiver; the limit is reported exactly when a
  call of a registered feature is attempted at the limit, an unknown name exactly when a call
  of one is attempted; and features that each call only the next are cut off exactly when there
  are more of them than levels left (`depth_of_call`).
-/
import Sketchwork.Proofs.Builtin.Errors
import Sketchwork.Proofs.Feature.Machine

namespace Sketchwork

/-! ## Active calls -/

/-- The calls that are not given back yet. -/
def active : List Frame → Nat
  | [] => 0
  | .call _ _ :: fs => active fs + 1
  | .moves _ _ :: fs | .steps _ _ :: fs | .adopt _ :: fs | .bind _ _ _ _ _ :: fs => active fs

/-- The sketch that a body works on. -/
def Control.working? : Control → Option Sketch
  | .body _ _ sketch | .moves _ _ sketch | .references _ _ _ sketch | .chain _ _ sketch | .steps _ _ sketch => some sketch
  | .call _ _ _ | .done _ => none

/-! ## The invariant -/

/-- A frame above `fs` waits at the depth it has to. -/
def Frame.Fits (d : Nat) (fs : List Frame) : Frame → Prop
  | .call _ depth => depth = d + active fs ∧ depth < maxDepth
  | .moves _ _ | .steps _ _ => 1 ≤ active fs
  | .adopt sketch | .bind _ _ _ _ sketch => sketch.depth = d + active fs ∧ 1 ≤ active fs

def FramesFit (d : Nat) : List Frame → Prop
  | [] => True
  | f :: fs => f.Fits d fs ∧ FramesFit d fs

def Control.Fits (d : Nat) (fs : List Frame) : Control → Prop
  | .call _ _ sketch | .done (.ok sketch) => sketch.depth = d + active fs
  | .body _ _ sketch | .moves _ _ sketch | .references _ _ _ sketch | .chain _ _ sketch | .steps _ _ sketch =>
    sketch.depth = d + active fs ∧ 1 ≤ active fs
  | .done (.error _) => True

def State.Fits (d : Nat) (s : State) : Prop :=
  s.control.Fits d s.frames ∧ FramesFit d s.frames

variable {registry : Registry} {s t : State} {d : Nat} {fs : List Frame}

theorem FramesFit.le_maxDepth (h : FramesFit d fs) (ha : 1 ≤ active fs) : d + active fs ≤ maxDepth := by
  induction fs with
  | nil => cases ha
  | cons f fs ih =>
    obtain ⟨hf, hfs⟩ := h
    cases f with
    | call name depth =>
      obtain ⟨rfl, hlt⟩ := hf
      exact hlt
    | moves | steps | adopt | bind => exact ih hfs ha

theorem Next.fits (h : Next registry s t) (hs : s.Fits d) : t.Fits d := by
  obtain ⟨hc, hf⟩ := hs
  cases h with
  | unknown | limit | fail | plainFails | stepFails => exact ⟨trivial, hf⟩
  | unwind => exact ⟨trivial, hf.2⟩
  | enter hr hd => exact ⟨⟨congrArg Nat.succ hc, Nat.le_add_left 1 _⟩, ⟨hc, hd⟩, hf⟩
  | leave => exact ⟨hf.1.1, hf.2⟩
  | @builtin b args fs w input =>
    refine ⟨?_, hf⟩
    cases b.run ⟨w.next⟩ input.node args with
    | error e => trivial
    | ok out => exact hc.1
  | document | listed | setFeature | blank | probe | plain | referenced => exact ⟨hc, hf⟩
  | moved | stepped => exact ⟨hc.1, hf⟩
  | moveCall | stepCall => exact ⟨hc.1, hc.2, hf⟩
  | moveOn | stepOn => exact ⟨⟨hc, hf.1⟩, hf.2⟩
  | sketch | chain => exact ⟨hc, hc, hf⟩
  | bound => exact ⟨hf.1, hf.2⟩
  | adopted => exact ⟨hf.1.1, hf.2⟩
  | stepNested => exact ⟨hc, hc.2, hf⟩

theorem fits_calling (receiver : Sketch) (name : String) (args : List Value) (w : World) :
    (State.calling receiver name args w).Fits receiver.depth :=
  ⟨rfl, trivial⟩

theorem Run.fits (h : Run registry s t) (hs : s.Fits d) : t.Fits d := by
  induction h with
  | refl => exact hs
  | tail _ h ih => exact h.fits ih

/-! ## Refused calls -/

/-- A call that fails before a body runs, and the error it fails with. -/
inductive Refuses (registry : Registry) : State → Error → Prop
  | unknown {name args receiver fs w} : Assoc.get? registry name = none →
      Refuses registry ⟨.call name args receiver, fs, w⟩ (.unknownFeature name)
  | limit {name args receiver fs w feature} : Assoc.get? registry name = some feature →
      maxDepth ≤ receiver.depth → Refuses registry ⟨.call name args receiver, fs, w⟩ (.recursionLimit name)

variable {e : Error} {w : World}

theorem Refuses.next (h : Refuses registry s e) : ∃ fs w, Next registry s ⟨.done (.error e), fs, w⟩ := by
  cases h with
  | unknown hr => exact ⟨_, _, .unknown hr⟩
  | limit hr hd => exact ⟨_, _, .limit hr hd⟩

/-- The error of a call comes from a refused call or was there before. -/
theorem Next.refuses_or_eq (h : Next registry s ⟨.done (.error e), fs, w⟩) (he : e.isOfCall = true) :
    Refuses registry s e ∨ s.control = .done (.error e) := by
  generalize ht : (⟨.done (.error e), fs, w⟩ : State) = t at h
  cases h with
  | unknown hr => cases ht; exact .inl (.unknown hr)
  | limit hr hd => cases ht; exact .inl (.limit hr hd)
  | unwind => cases ht; exact .inr rfl
  | @builtin b args fs' w' input =>
    cases hb : b.run ⟨w'.next⟩ input.node args with
    | ok out => rw [hb] at ht; cases ht
    | error e' =>
      rw [hb] at ht
      cases ht
      rw [Builtin.callFree_run _ _ _ _ _ hb] at he
      cases he
  | fail => cases ht; cases he
  | plainFails _ hv => cases ht; rw [Arg.callFree_eval _ _ _ hv] at he; cases he
  | stepFails hv => cases ht; rw [Arg.callFree_evalAll _ _ _ hv] at he; cases he
  | _ => cases ht

theorem Run.refuses (h : Run registry s t) (ht : t.control = .done (.error e)) (he : e.isOfCall = true)
    (hs : s.control ≠ .done (.error e)) : ∃ r, Run registry s r ∧ Refuses registry r e := by
  induction h with
  | refl => exact absurd ht hs
  | @tail r t hr h ih =>
    obtain ⟨_, fs, w⟩ := t
    cases ht
    rcases h.refuses_or_eq he with hr' | hr'
    · exact ⟨r, hr, hr'⟩
    · exact ih hr'

theorem run_unwind (e : Error) (fs : List Frame) (w : World) :
    Run registry ⟨.done (.error e), fs, w⟩ ⟨.done (.error e), [], w⟩ := by
  induction fs with
  | nil => exact .refl
  | cons f fs ih => exact .head .unwind ih

theorem Run.eq_of_done {outcome : Except Error Sketch} (h : Run registry ⟨.done outcome, [], w⟩ t) :
    t = ⟨.done outcome, [], w⟩ := by
  rcases h.cases_head with rfl | ⟨_, h, _⟩
  · rfl
  · exact absurd h Next.not_done

/-- A call fails with the error of a call when such a call was refused on the way. -/
theorem call_eq_error_iff (receiver : Sketch) (name : String) (args : List Value) (he : e.isOfCall = true) :
    (receiver.call registry name args w).1 = .error e ↔
      ∃ s, Run registry (.calling receiver name args w) s ∧ Refuses registry s e := by
  have hrun := run_call registry receiver name args [] w
  constructor
  · intro h
    refine hrun.refuses (congrArg Control.done h) he ?_
    nofun
  · rintro ⟨s, hs, hr⟩
    obtain ⟨fs, w', hn⟩ := hr.next
    have hend : Run registry (.calling receiver name args w) ⟨.done (.error e), [], w'⟩ :=
      (hs.tail hn).trans (run_unwind e fs w')
    exact (Control.done.inj (congrArg State.control (Run.eq_of_done (hend.halts hrun)))).symm

/-! ## Features that call only the next -/

mutual

/-- The names that a step calls. -/
def Step.callees : Step → List String
  | .call name _ => [name.value]
  | .nested steps _ => allCallees steps

def Step.allCallees : List Step → List String
  | [] => []
  | step :: steps => callees step ++ allCallees steps

end

def Reference.callees (r : Reference) : List String :=
  match r.binding with
  | .plain _ => []
  | .sketch c => Step.allCallees c.steps

def Move.callees : Move → List String
  | .call name _ => [name]
  | .setFeature _ | .blank | .fail | .probe => []

/-- The names that a body calls. -/
def Feature.callees : Feature → List String
  | .builtin _ => []
  | .document d => d.references.flatMap Reference.callees ++ Step.allCallees d.sketch.steps
  | .moves ms => ms.flatMap Move.callees

/-- Whatever a body is run for, it comes to a call of `name`. -/
def ComesTo (registry : Registry) (feature : Feature) (name : String) : Prop :=
  ∀ args input fs w, ∃ args' receiver fs' w',
    Run registry ⟨.body feature args input, fs, w⟩ ⟨.call name args' receiver, fs', w'⟩ ∧ active fs' = active fs

/-- Registered features, each of which calls the next and nothing else; the last one calls nothing. -/
def CallsNext (registry : Registry) (names : List String) : Prop :=
  ∀ i name, names[i]? = some name → ∃ feature, Assoc.get? registry name = some feature ∧
    (∀ callee ∈ feature.callees, names[i + 1]? = some callee) ∧
    ∀ next, names[i + 1]? = some next → ComesTo registry feature next

/-- With `n` calls active, all that is called is the name at `n`. -/
def Allows (names : List String) (fs : List Frame) (callees : List String) : Prop :=
  ∀ callee ∈ callees, names[active fs]? = some callee

def Frame.callees : Frame → List String
  | .call _ _ | .adopt _ => []
  | .moves ms _ => ms.flatMap Move.callees
  | .steps rest _ => Step.allCallees rest
  | .bind _ rs c _ _ => rs.flatMap Reference.callees ++ Step.allCallees c.steps

def Control.callees : Control → List String
  | .call name _ _ => [name]
  | .body feature _ _ => feature.callees
  | .moves ms _ _ => ms.flatMap Move.callees
  | .references rs c _ _ => rs.flatMap Reference.callees ++ Step.allCallees c.steps
  | .chain rest _ _ | .steps rest _ _ => Step.allCallees rest
  | .done _ => []

def FramesFollow (names : List String) : List Frame → Prop
  | [] => True
  | f :: fs => Allows names fs f.callees ∧ FramesFollow names fs

/-- What is still to be called follows the names. -/
def State.Follows (names : List String) (s : State) : Prop :=
  Allows names s.frames s.control.callees ∧ FramesFollow names s.frames

variable {names : List String}

theorem Allows.nil : Allows names fs [] := nofun

theorem Allows.subset {callees callees' : List String} (h : Allows names fs callees) (hs : callees' ⊆ callees) :
    Allows names fs callees' :=
  fun callee hc => h callee (hs hc)

theorem Allows.append {callees callees' : List String} (h : Allows names fs (callees ++ callees')) :
    Allows names fs callees ∧ Allows names fs callees' :=
  ⟨h.subset (List.subset_append_left _ _), h.subset (List.subset_append_right _ _)⟩

theorem Next.follows (hn : CallsNext registry names) (h : Next registry s t) (hs : s.Follows names) :
    t.Follows names := by
  obtain ⟨hc, hf⟩ := hs
  cases h with
  | unknown | limit | builtin | moved | fail | plainFails | stepped | stepFails => exact ⟨.nil, hf⟩
  | unwind | leave | adopted => exact ⟨.nil, hf.2⟩
  | moveOn | bound | stepOn => exact hf
  | document | listed | setFeature | blank | probe | referenced => exact ⟨hc, hf⟩
  | @enter name _ _ _ _ feature hr hd =>
    obtain ⟨feature', hr', hcallees, -⟩ := hn _ name (hc name (List.mem_singleton_self name))
    rw [hr] at hr'
    cases hr'
    exact ⟨hcallees, .nil, hf⟩
  | @moveCall name operands ms _ _ fs =>
    have hc : Allows names fs ([name] ++ ms.flatMap Move.callees) := hc
    exact ⟨hc.append.1, hc.append.2, hf⟩
  | @plain r _ rs chain _ _ fs _ _ hb =>
    have hc : Allows names fs ((r.callees ++ rs.flatMap Reference.callees) ++ Step.allCallees chain.steps) := hc
    rw [List.append_assoc] at hc
    exact ⟨hc.append.2, hf⟩
  | @sketch r c rs chain scope fs w input hb =>
    have hr : r.callees = Step.allCallees c.steps := by rw [Reference.callees, hb]
    have hc : Allows names fs ((r.callees ++ rs.flatMap Reference.callees) ++ Step.allCallees chain.steps) := hc
    rw [List.append_assoc, hr] at hc
    exact ⟨hc.append.1, hc.append.2, hf⟩
  | chain => exact ⟨hc, .nil, hf⟩
  | @stepCall name args steps scope current fs =>
    have hc : Allows names fs ([name.value] ++ Step.allCallees steps) := hc
    exact ⟨hc.append.1, hc.append.2, hf⟩
  | @stepNested inner span steps scope current fs =>
    have hc : Allows names fs (Step.allCallees inner ++ Step.allCallees steps) := hc
    exact ⟨hc.append.1, hc.append.2, hf⟩

theorem follows_calling {name : String} (hname : names[0]? = some name) (receiver : Sketch) (args : List Value)
    (w : World) : (State.calling receiver name args w).Follows names := by
  refine ⟨fun callee hc => ?_, trivial⟩
  cases List.mem_singleton.mp hc
  exact hname

theorem Run.follows (hn : CallsNext registry names) (h : Run registry s t) (hs : s.Follows names) : t.Follows names := by
  induction h with
  | refl => exact hs
  | tail _ h ih => exact h.follows hn ih

/-- Every name is called with as many calls active as there are names before it, unless the limit
    cuts the calls off. -/
theorem run_to_call (hn : CallsNext registry names) {name : String} (hname : names[0]? = some name)
    (args : List Value) (receiver : Sketch) (w : World) (k : Nat) {callee : String} (hk : names[k]? = some callee)
    (hlimit : receiver.depth + k ≤ maxDepth) :
    ∃ args' receiver' fs w', Run registry (.calling receiver name args w) ⟨.call callee args' receiver', fs, w'⟩ ∧
      receiver'.depth = receiver.depth + k ∧ active fs = k := by
  induction k generalizing callee with
  | zero =>
    rw [hname] at hk
    cases hk
    exact ⟨args, receiver, [], w, .refl, rfl, rfl⟩
  | succ k ih =>
    obtain ⟨caller, hcaller⟩ : ∃ caller, names[k]? = some caller := by
      obtain ⟨h, -⟩ := List.getElem?_eq_some_iff.mp hk
      exact ⟨_, List.getElem?_eq_getElem (Nat.lt_of_succ_lt h)⟩
    obtain ⟨args₁, receiver₁, fs₁, w₁, hrun, hdepth, hactive⟩ := ih hcaller (by omega)
    obtain ⟨feature, hr, -, hcomes⟩ := hn k caller hcaller
    obtain ⟨args₂, receiver₂, fs₂, w₂, hrun₂, hactive₂⟩ := hcomes callee hk args₁
      ⟨{ receiver₁.node with provenance := .stamped caller }, receiver₁.depth + 1⟩ (.call caller receiver₁.depth :: fs₁) w₁
    have hall := (hrun.tail (.enter hr (by omega))).trans hrun₂
    have hactive' : active fs₂ = k + 1 := by rw [hactive₂]; exact congrArg Nat.succ hactive
    have hdepth' : receiver₂.depth = receiver.depth + active fs₂ := (Run.fits hall (fits_calling receiver name args w)).1
    exact ⟨args₂, receiver₂, fs₂, w₂, hall, hactive' ▸ hdepth', hactive'⟩

/-- Features that each call only the next are cut off when there are more than levels left. -/
theorem limit_iff_of_callsNext (hn : CallsNext registry names) {name : String} (hname : names[0]? = some name)
    (receiver : Sketch) (args : List Value) :
    (∃ callee, (receiver.call registry name args w).1 = .error (.recursionLimit callee)) ↔
      maxDepth < receiver.depth + names.length := by
  constructor
  · rintro ⟨callee, h⟩
    obtain ⟨s, hrun, hs⟩ := (call_eq_error_iff receiver name args rfl).mp h
    cases hs with
    | @limit _ args' receiver' fs w' feature hr hd =>
      have hdepth : receiver'.depth = receiver.depth + active fs :=
        (hrun.fits (fits_calling receiver name args w)).1
      have hcallee : names[active fs]? = some callee :=
        (hrun.follows hn (follows_calling hname receiver args w)).1 callee (List.mem_singleton_self callee)
      obtain ⟨hlt, -⟩ := List.getElem?_eq_some_iff.mp hcallee
      omega
  · intro h
    by_cases hd : maxDepth ≤ receiver.depth
    · obtain ⟨feature, hr, -⟩ := hn 0 name hname
      exact ⟨name, (call_eq_error_iff receiver name args rfl).mpr ⟨_, .refl, .limit hr hd⟩⟩
    · have hlt : maxDepth - receiver.depth < names.length := by omega
      obtain ⟨args', receiver', fs, w', hrun, hdepth, -⟩ := run_to_call hn hname args receiver w
        (maxDepth - receiver.depth) (List.getElem?_eq_getElem hlt) (by omega)
      obtain ⟨feature, hr, -⟩ := hn _ _ (List.getElem?_eq_getElem hlt)
      exact ⟨_, (call_eq_error_iff receiver name args rfl).mpr ⟨_, hrun, .limit hr (by omega)⟩⟩

/-- Moves come to their first call when none of them fails before it. -/
theorem comesTo_of_moves {name : String} {operands : List Operand} {before after : List Move}
    (h : ∀ m ∈ before, m = .blank ∨ m = .probe ∨ ∃ x, m = .setFeature x) :
    ComesTo registry (.moves (before ++ .call name operands :: after)) name := by
  intro args input fs w
  suffices h : ∃ args' receiver' fs' w', Run registry ⟨.moves (before ++ .call name operands :: after) args input, fs, w⟩
      ⟨.call name args' receiver', fs', w'⟩ ∧ active fs' = active fs by
    obtain ⟨args', receiver', fs', w', hrun, hactive⟩ := h
    exact ⟨args', receiver', fs', w', .head .listed hrun, hactive⟩
  induction before generalizing input w with
  | nil =>
    obtain ⟨values, w', hv⟩ := Operand.evalAll_succeeds args operands w
    exact ⟨values, input, _, w', .single (.moveCall hv), rfl⟩
  | cons m ms ih =>
    rw [List.cons_append]
    rcases h m List.mem_cons_self with rfl | rfl | ⟨x, rfl⟩
    all_goals
      obtain ⟨args', receiver', fs', w', hrun, hactive⟩ := ih (fun m hm => h m (List.mem_cons_of_mem _ hm)) _ _
    · exact ⟨args', receiver', fs', w', .head .blank hrun, hactive⟩
    · exact ⟨args', receiver', fs', w', .head .probe hrun, hactive⟩
    · exact ⟨args', receiver', fs', w', .head .setFeature hrun, hactive⟩

/-- A document without references comes to the call that it starts with. -/
theorem comesTo_of_document {ps : List Parameter} {name : Spanned String} {as : List Arg} {steps : List Step} {span : Span}
    (h : ∀ scope, ∃ values, Arg.evalAll scope as = .ok values) :
    ComesTo registry (.document ⟨ps, [], ⟨.call name as :: steps, span⟩⟩) name.value := by
  intro args input fs w
  obtain ⟨values, hv⟩ := h (Document.bindParameters ps args .empty)
  exact ⟨values, _, _, _, .head .document (.head .referenced (.head .chain (.single (.stepCall hv)))), rfl⟩

/-! ## The law of the depth -/

theorem depth_of_call (registry : Registry) (receiver : Sketch) (name : String) (args : List Value) (w : World) :
    Acc (fun t s => Next registry s t) (.calling receiver name args w) ∧
      Run registry (.calling receiver name args w)
        ⟨.done (receiver.call registry name args w).1, [], (receiver.call registry name args w).2⟩ ∧
      (∀ s, Run registry (.calling receiver name args w) s →
        (∀ sketch, s.control.working? = some sketch →
          receiver.depth + 1 ≤ sketch.depth ∧ sketch.depth ≤ maxDepth ∧
            sketch.depth = receiver.depth + active s.frames) ∧
        ∀ out, s.control = .done (.ok out) → out.depth = receiver.depth + active s.frames) ∧
      (∀ out, (receiver.call registry name args w).1 = .ok out → out.depth = receiver.depth) ∧
      (∀ callee, (receiver.call registry name args w).1 = .error (.recursionLimit callee) ↔
        ∃ args' receiver' fs w', Run registry (.calling receiver name args w) ⟨.call callee args' receiver', fs, w'⟩ ∧
          (Assoc.get? registry callee).isSome ∧ maxDepth ≤ receiver'.depth) ∧
      (∀ callee, (receiver.call registry name args w).1 = .error (.unknownFeature callee) ↔
        ∃ args' receiver' fs w', Run registry (.calling receiver name args w) ⟨.call callee args' receiver', fs, w'⟩ ∧
          Assoc.get? registry callee = none) ∧
      ∀ names : List String, names[0]? = some name → CallsNext registry names →
        ((∃ callee, (receiver.call registry name args w).1 = .error (.recursionLimit callee)) ↔
          maxDepth < receiver.depth + names.length) := by
  have hrun := run_call registry receiver name args [] w
  have hstart := fits_calling receiver name args w
  refine ⟨hrun.acc, hrun, ?bodies, ?returns, ?limit, ?unknown, ?cutOff⟩
  case bodies =>
    intro s hs
    have hfits := hs.fits hstart
    obtain ⟨control, fs, w'⟩ := s
    refine ⟨fun sketch hsketch => ?_, ?_⟩
    · have hc : sketch.depth = receiver.depth + active fs ∧ 1 ≤ active fs := by
        cases control <;> cases hsketch <;> exact hfits.1
      have hle := hfits.2.le_maxDepth hc.2
      dsimp only at hle ⊢
      omega
    · rintro out rfl
      exact hfits.1
  case returns =>
    intro out h
    have hfits := (hrun.fits hstart).1
    rw [h] at hfits
    exact hfits
  case limit =>
    intro callee
    rw [call_eq_error_iff receiver name args rfl]
    constructor
    · rintro ⟨s, hs, hr⟩
      cases hr with
      | limit hf hd => exact ⟨_, _, _, _, hs, by rw [hf]; rfl, hd⟩
    · rintro ⟨args', receiver', fs, w', hs, hf, hd⟩
      obtain ⟨feature, hf⟩ := Option.isSome_iff_exists.mp hf
      exact ⟨_, hs, .limit hf hd⟩
  case unknown =>
    intro callee
    rw [call_eq_error_iff receiver name args rfl]
    constructor
    · rintro ⟨s, hs, hr⟩
      cases hr with
      | unknown hf => exact ⟨_, _, _, _, hs, hf⟩
    · rintro ⟨args', receiver', fs, w', hs, hf⟩
      exact ⟨_, hs, .unknown hf⟩
  case cutOff =>
    intro names hname hn
    exact limit_iff_of_callsNext hn hname receiver args

theorem three_features_exceed_two_levels :
    let document : Document := ⟨[], [], ⟨[.call ⟨"hide", .point 0⟩ []], .point 0⟩⟩
    let registry : Registry := [("outer", .moves [.blank, .call "inner" []]), ("inner", .document document),
      ("hide", .builtin .hide)]
    ∃ callee, (Sketch.call ⟨.empty ⟨0⟩, 22⟩ registry "outer" [] ⟨1, []⟩).1 = .error (.recursionLimit callee) := by
  intro document registry
  have hn : CallsNext registry ["outer", "inner", "hide"] := by
    intro i name hname
    match i with
    | 0 =>
      cases hname
      refine ⟨_, rfl, by simp [Feature.callees, Move.callees], ?_⟩
      rintro next ⟨⟩
      have hblank : ∀ m ∈ [Move.blank], m = .blank ∨ m = .probe ∨ ∃ x, m = .setFeature x := by simp
      exact comesTo_of_moves hblank
    | 1 =>
      cases hname
      refine ⟨_, rfl, by simp [Feature.callees, Step.callees, Step.allCallees, document], ?_⟩
      rintro next ⟨⟩
      exact comesTo_of_document fun scope => ⟨[], rfl⟩
    | 2 =>
      cases hname
      exact ⟨_, rfl, by simp [Feature.callees], by simp⟩
  exact ((depth_of_call registry _ _ _ _).2.2.2.2.2.2 ["outer", "inner", "hide"] rfl hn).mpr (by decide)

end Sketchwork
