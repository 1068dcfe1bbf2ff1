/-
  Sketchwork.Proofs.Document.Sources — where the expressions of a document stand in its text.

  Every expression of a document was read from a scalar of its tree (`expressions_read`), whose
  offsets count from the first character of its content. An escape takes more room than what it
  stands for, so behind it they are too small.

  Proved: a leaf of an expression is read from some characters of the scalar's content alone, and
  where no escape comes before its end these are what the document has at its range, but for the
  gaps of a scalar that goes on over several lines (`leaf_written`).
-/
import Mathlib
import Sketchwork.Proofs.Document.Acceptance
import Sketchwork.Proofs.Expr.Nodes
import Sketchwork.Proofs.Outline.Placement

namespace Sketchwork

open Text (width)

/-! ## Expressions of a document -/

mutual

/-- The expressions of an argument. -/
def Arg.expressions : Arg → List Expr
  | .literal _ => []
  | .expr e => [e]
  | .list items => Arg.expressionsOfAll items
  | .map entries => Arg.expressionsOfEntries entries

def Arg.expressionsOfAll : List Arg → List Expr
  | [] => []
  | arg :: args => arg.expressions ++ Arg.expressionsOfAll args

def Arg.expressionsOfEntries : List (String × Arg) → List Expr
  | [] => []
  | (_, arg) :: entries => arg.expressions ++ Arg.expressionsOfEntries entries

end

mutual

/-- The expressions of a step and of the steps in it. -/
def Step.expressions : Step → List Expr
  | .call _ args => Arg.expressionsOfAll args
  | .nested steps _ => Step.expressionsOfAll steps

def Step.expressionsOfAll : List Step → List Expr
  | [] => []
  | step :: steps => step.expressions ++ Step.expressionsOfAll steps

end

def Binding.expressions : Binding → List Expr
  | .plain arg => arg.expressions
  | .sketch chain => Step.expressionsOfAll chain.steps

def Document.expressions (d : Document) : List Expr :=
  d.references.flatMap (·.binding.expressions) ++ Step.expressionsOfAll d.sketch.steps

namespace Document

variable {good : Item → Prop}

/-- An expression that is read from a good scalar. -/
def ReadFrom (good : Item → Prop) (e : Expr) : Prop :=
  ∃ s quoted span, good (.text s quoted span) ∧ Expr.read (Item.text s quoted span).contentStart s.toList = .ok e

theorem argOfText_read {s : String} {quoted : Bool} {span : Span} (h : good (.text s quoted span)) :
    ∀ e ∈ (argOfText s (.text s quoted span)).value.expressions, ReadFrom good e := by
  intro e he
  unfold argOfText at he
  split at he
  · cases he
  · split at he
    · rename_i hread
      obtain rfl := List.mem_singleton.mp he
      exact ⟨s, quoted, span, h, hread⟩
    · cases he

mutual

theorem arg_read : ∀ {item : Item}, item.Texts good → ∀ e ∈ (arg item).value.expressions, ReadFrom good e
  | .null _, _ | .bool .., _ | .number .., _ => fun _ he => absurd he List.not_mem_nil
  | .text .., .text h => argOfText_read h
  | .seq .., .seq _ h => by
    rw [arg]
    exact args_read h
  | .map .., .map _ h => by
    rw [arg]
    exact argEntries_read h

theorem args_read : ∀ {items : List Item}, (∀ item ∈ items, item.Texts good) →
    ∀ e ∈ Arg.expressionsOfAll (args items).value, ReadFrom good e
  | [], _ => fun _ he => absurd he List.not_mem_nil
  | item :: items, h => by
    obtain ⟨hitem, hitems⟩ := List.forall_mem_cons.mp h
    rw [args]
    exact List.forall_mem_append.mpr ⟨arg_read hitem, args_read hitems⟩

theorem argEntries_read : ∀ {entries : List Item.Entry}, (∀ e ∈ entries, e.2.Texts good) →
    ∀ e ∈ Arg.expressionsOfEntries (argEntries entries).value, ReadFrom good e
  | [], _ => fun _ he => absurd he List.not_mem_nil
  | (key, value) :: entries, h => by
    obtain ⟨hvalue, hvalues⟩ := List.forall_mem_cons.mp h
    rw [argEntries]
    exact List.forall_mem_append.mpr ⟨arg_read hvalue, argEntries_read hvalues⟩

end

theorem stepArgs_read {item : Item} (h : item.Texts good) :
    ∀ e ∈ Arg.expressionsOfAll (stepArgs item).value, ReadFrom good e := by
  have one (h : item.Texts good) : ∀ e ∈ Arg.expressionsOfAll [(arg item).value], ReadFrom good e :=
    List.forall_mem_append.mpr ⟨arg_read h, fun _ he => absurd he List.not_mem_nil⟩
  cases h with
  | null => exact fun _ he => absurd he List.not_mem_nil
  | seq _ h => exact args_read h
  | bool b span => exact one (.bool b span)
  | number x span => exact one (.number x span)
  | text h => exact one (.text h)
  | map span h => exact one (.map span h)

mutual

theorem steps_read : ∀ {item : Item}, item.Texts good →
    ∀ e ∈ Step.expressionsOfAll (steps item).value, ReadFrom good e
  | .null _, _ => by
    rw [steps]
    exact fun _ he => absurd he List.not_mem_nil
  | .seq .., .seq _ h => by
    rw [steps]
    exact stepItems_read h
  | .bool .., _ | .number .., _ | .text .., _ | .map .., _ => by
    rw [steps]
    · exact fun _ he => absurd he List.not_mem_nil
    · nofun
    · nofun

theorem stepItems_read : ∀ {items : List Item}, (∀ item ∈ items, item.Texts good) →
    ∀ e ∈ Step.expressionsOfAll (stepItems items).value, ReadFrom good e
  | [], _ => by
    rw [stepItems]
    exact fun _ he => absurd he List.not_mem_nil
  | item :: items, h => by
    obtain ⟨hitem, hitems⟩ := List.forall_mem_cons.mp h
    have hfirst := step?_read hitem
    have hmore := stepItems_read hitems
    rw [stepItems]
    cases hstep : (step? item).value with
    | none => simpa [hstep] using hmore
    | some step => simpa [hstep, Step.expressionsOfAll] using List.forall_mem_append.mpr ⟨hfirst step hstep, hmore⟩

theorem step?_read : ∀ {item : Item}, item.Texts good → ∀ step, (step? item).value = some step →
    ∀ e ∈ step.expressions, ReadFrom good e
  | .map [(key, value)] _, .map _ h => by
    have hvalue : value.Texts good := h (key, value) List.mem_cons_self
    intro step hstep
    rw [step?] at hstep
    split at hstep
    · cases hstep
      exact steps_read hvalue
    · cases hstep
      exact stepArgs_read hvalue
  | .map [] _, _ | .map (_ :: _ :: _) _, _ | .null _, _ | .bool .., _ | .number .., _ | .text .., _ | .seq .., _ => by
    intro step hstep
    rw [step?] at hstep
    · cases hstep
    · nofun

end

/-- A reference whose expressions are read from good scalars, if there is one. -/
def BindingRead (good : Item → Prop) (r : Option Reference) : Prop :=
  ∀ r' ∈ r, ∀ e ∈ r'.binding.expressions, ReadFrom good e

theorem referenceEntry_read {entry : Item.Entry} (h : entry.2.Texts good) :
    BindingRead good (referenceEntry entry).value := by
  obtain ⟨key, value⟩ := entry
  unfold referenceEntry
  dsimp only
  split
  · split
    · exact fun _ hr => absurd hr (Option.not_mem_none _)
    · rintro _ ⟨⟩
      exact steps_read h
  · split
    · exact fun _ hr => absurd hr (Option.not_mem_none _)
    · rintro _ ⟨⟩
      exact arg_read h

theorem texts_of_single {item : Item} {entry : Item.Entry} (h : item.Texts good)
    (hentry : item.singleEntry? = some entry) : entry.2.Texts good := by
  cases h with
  | null | bool | number | text | seq => cases hentry
  | @map entries span h =>
    match entries, hentry with
    | [_], rfl => exact h _ List.mem_cons_self

theorem referenceItem_read {item : Item} (h : item.Texts good) : BindingRead good (referenceItem item).value := by
  unfold referenceItem
  split
  · rename_i entry hentry
    exact referenceEntry_read (texts_of_single h hentry)
  · exact fun _ hr => absurd hr (Option.not_mem_none _)

theorem collect_read {α : Type} {f : α → Part (Option Reference)} {xs : List α}
    (h : ∀ x ∈ xs, BindingRead good (f x).value) :
    ∀ r ∈ (collect f xs).value, ∀ e ∈ r.binding.expressions, ReadFrom good e := by
  intro r hr
  obtain ⟨part, hpart, hvalue⟩ := List.mem_filterMap.mp hr
  obtain ⟨x, hx, rfl⟩ := List.mem_map.mp hpart
  exact h x hx r hvalue

theorem readReferences_read {item : Item} (h : item.Texts good) :
    ∀ r ∈ (readReferences item).value, ∀ e ∈ r.binding.expressions, ReadFrom good e := by
  cases h with
  | seq _ h => exact collect_read fun item hitem => referenceItem_read (h item hitem)
  | map _ h => exact collect_read fun entry hentry => referenceEntry_read (h entry hentry)
  | null | bool | number | text => exact fun _ hr => absurd hr List.not_mem_nil

/-- The expressions of the sections read so far come from good scalars. -/
structure Sections.Read (good : Item → Prop) (s : Sections) : Prop where
  references : ∀ r ∈ s.references, ∀ e ∈ r.binding.expressions, ReadFrom good e
  sketch : ∀ chain ∈ s.sketch, ∀ e ∈ Step.expressionsOfAll chain.steps, ReadFrom good e

theorem add_read {s : Sections} (h : s.Read good) {entry : Item.Entry} (hentry : entry.2.Texts good) :
    (s.add entry).Read good := by
  unfold Sections.add
  dsimp only
  split
  · exact ⟨h.references, h.sketch⟩
  split
  · exact ⟨readReferences_read hentry, h.sketch⟩
  split
  · refine ⟨h.references, ?_⟩
    rintro _ ⟨⟩
    exact steps_read hentry
  · exact ⟨h.references, h.sketch⟩

/-- Every expression of a document is read from a scalar of its tree. -/
theorem expressions_read {root : Item} {d : Document} (hroot : root.Texts good) (h : ofItem root = .ok d) :
    ∀ e ∈ d.expressions, ReadFrom good e := by
  cases hroot with
  | null | bool | number | text | seq => cases h
  | @map entries span hentries =>
    have hnone : Sections.Read good {} :=
      ⟨fun _ hr => absurd hr List.not_mem_nil, fun _ hc => absurd hc (Option.not_mem_none _)⟩
    have hsections : (entries.foldl Sections.add {}).Read good :=
      List.foldlRecOn entries Sections.add hnone fun s hs entry hentry => add_read hs (hentries entry hentry)
    unfold ofItem at h
    dsimp only at h
    generalize entries.foldl Sections.add {} = s at h hsections
    generalize List.any _ Diagnostic.isError = faulty at h
    cases faulty with
    | true => cases h
    | false =>
      cases h
      refine List.forall_mem_append.mpr ⟨?_, ?_⟩
      · intro e he
        obtain ⟨r, hr, he⟩ := List.mem_flatMap.mp he
        exact hsections.references r hr e he
      · dsimp only
        cases hsketch : s.sketch with
        | none => exact fun _ he => absurd he List.not_mem_nil
        | some chain => exact hsections.sketch chain hsketch

end Document

/-! ## Sources -/

/-- A text with one section, a sketch that nothing is reported of. -/
theorem Document.read_of_sketch {text : String} {key : Spanned String} {value : Item} {span : Span} {chain : Chain}
    (hitem : Item.read text.toList = .ok (.map [(key, value)] span)) (hkey : key.value = "sketch")
    (hchain : readChain value = ⟨chain, []⟩) : Document.read text = .ok ⟨[], [], chain⟩ := by
  have hadd : Sections.add {} (key, value) = { sketch := some chain } := by
    rw [add_sketch {} (show (key, value).1.value = "sketch" from hkey), hchain]
    rfl
  have hofItem : ofItem (.map [(key, value)] span) = .ok ⟨[], [], chain⟩ := by
    refine ofItem_map_eq_ok_iff.mpr ?_
    simp only [List.foldl_cons, List.foldl_nil, List.flatMap_cons, List.flatMap_nil, sectionFaults, hadd]
    exact ⟨⟨rfl, rfl⟩, rfl⟩
  rw [Document.read, hitem]
  exact hofItem

/-- A leaf is read from characters of one scalar alone. Where no escape comes before its end, a
    document has these characters at its range, with line breaks for some of the spaces if the
    scalar goes on over several lines. -/
theorem Document.leaf_written {text : String} {d : Document} (h : Document.read text = .ok d) {e leaf : Expr}
    (he : e ∈ d.expressions) (hleaf : leaf ∈ e.leaves) :
    ∃ (s : String) (quoted : Bool) (span : Span) (written part characters : List Char),
      Place.Shows ⟨0, text.toList⟩ span written ∧ Filled written part ∧ Flow.Spells part (.text s quoted span) ∧
      Expr.read (Item.text s quoted span).contentStart s.toList = .ok e ∧
      Place.Shows ⟨(Item.text s quoted span).contentStart, s.toList⟩ leaf.span characters ∧
      Expr.read leaf.span.start characters = .ok leaf ∧
      ((∀ mark ∈ Flow.escape? part,
          ¬Place.Has ⟨0, text.toList⟩ mark (Item.text s quoted span).contentStart leaf.span.stop) →
        ∃ source, Place.Shows ⟨0, text.toList⟩ leaf.span source ∧ Filled source characters ∧
          ('\n' ∉ source → source = characters)) := by
  have hroot : ∃ root, Item.read text.toList = .ok root ∧ ofItem root = .ok d := exists_of_bind_eq_ok h
  obtain ⟨root, hread, hdocument⟩ := hroot
  obtain ⟨s, quoted, span, ⟨written, part, hwritten, hfilled, hspells⟩, he⟩ :=
    expressions_read (Item.read_stands hread) hdocument e he
  obtain ⟨characters, hshows, hinked, hleaf⟩ := Expr.read_leaf he hleaf
  refine ⟨s, quoted, span, written, part, characters, hwritten, hfilled, hspells, he, hshows, hleaf, ?_⟩
  intro hescapes
  obtain ⟨before, behind, hcontent, hstart, hstop⟩ := hshows
  dsimp only at hcontent hstart
  rw [← List.append_assoc] at hcontent
  have hend : (Item.text s quoted span).contentStart + width (before ++ characters) = leaf.span.stop := by
    rw [hstop, hstart, Text.width_append, Nat.add_assoc]
  -- up to the end of the leaf the scalar is written as its content
  obtain ⟨opening, rest, rfl, hopening⟩ := hspells.front hcontent fun mark hmark hhas => by
    rw [hend] at hhas
    exact hescapes mark hmark (hwritten.has (hfilled.has (Flow.ne_space_of_escape? hmark) hhas))
  have hparts : opening ++ (before ++ characters ++ rest) = (opening ++ before) ++ (characters ++ rest) := by
    simp only [List.append_assoc]
  rw [hparts] at hfilled
  obtain ⟨front, source, back, rfl, hfront, hsource⟩ := hfilled.part hinked
  refine ⟨source, hwritten.trans ⟨front, back, rfl, ?_, ?_⟩, hsource, fun hbreak => (hsource.eq_of_not_mem hbreak).symm⟩
  · dsimp only
    rw [hstart, hopening, hfront, Text.width_append, Nat.add_assoc]
    rfl
  · rw [hstop, hsource.width_eq]

/-- A variable in a quoted scalar, with no escape before it. -/
theorem Document.leaf_written_quotedVariable : ∃ d, Document.read "sketch:\n- group: \"$x\"" = .ok d ∧
    ∃ e ∈ d.expressions, ∃ leaf ∈ e.leaves, leaf = .variable "x" (.sized 18 2) ∧ ∃ characters source,
      Expr.read leaf.span.start characters = .ok leaf ∧
      Place.Shows ⟨0, "sketch:\n- group: \"$x\"".toList⟩ leaf.span source ∧ Filled source characters := by
  have hitem : Item.read "sketch:\n- group: \"$x\"".toList = .ok (.map [(⟨"sketch", .sized 0 6⟩,
      .seq [.map [(⟨"group", .sized 10 5⟩, .text "$x" true (.sized 17 4))] (.sized 10 11)] (.sized 8 13))]
      (.sized 0 21)) := by
    cbv
  have hread := Document.read_of_sketch hitem rfl
    (show Document.readChain _ =
      ⟨⟨[.call ⟨"group", .sized 10 5⟩ [.expr (.variable "x" (.sized 18 2))]], .sized 8 13⟩, []⟩ by cbv)
  have hbackslash : '\\' ∉ "sketch:\n- group: \"$x\"".toList := by simp
  have hquote : '\'' ∉ "sketch:\n- group: \"$x\"".toList := by simp
  refine ⟨_, hread, _, List.mem_singleton.mpr rfl, _, List.mem_singleton.mpr rfl, rfl, ?_⟩
  obtain ⟨_, _, _, _, _, characters, -, -, -, -, -, hleaf, hsource⟩ :=
    Document.leaf_written hread (List.mem_singleton.mpr rfl) (List.mem_singleton.mpr rfl)
  obtain ⟨source, hshows, hfilled, -⟩ := hsource fun mark hmark hhas => by
    obtain ⟨before, behind, htext, -, -⟩ := hhas
    have hmem : mark ∈ "sketch:\n- group: \"$x\"".toList := by
      rw [show "sketch:\n- group: \"$x\"".toList = before ++ mark :: behind from htext]
      exact List.mem_append_right before List.mem_cons_self
    rcases Flow.escape?_cases hmark with rfl | rfl
    · exact hbackslash hmem
    · exact hquote hmem
  exact ⟨characters, source, hleaf, hshows, hfilled⟩

/-- Behind an escape the range of a leaf is too far left: here it begins with the backslash of the
    opening quote and ends before that of the closing one, and what stands there is no expression. -/
theorem Document.escaped_leaf_outside : ∃ d e leaf, Document.read "sketch:\n- name: \"\\\"a\\\"\"" = .ok d ∧
    e ∈ d.expressions ∧ leaf ∈ e.leaves ∧
    ∀ source, Place.Shows ⟨0, "sketch:\n- name: \"\\\"a\\\"\"".toList⟩ leaf.span source →
      ∀ content after, Quoted.escaped Flow.unescape? '"' leaf.span.start (source ++ ['"']) = .closed content after →
        ∀ e', Expr.read leaf.span.start content ≠ .ok e' := by
  have hitem : Item.read "sketch:\n- name: \"\\\"a\\\"\"".toList = .ok (.map [(⟨"sketch", .sized 0 6⟩,
      .seq [.map [(⟨"name", .sized 10 4⟩, .text "\"a\"" true (.sized 16 7))] (.sized 10 13)] (.sized 8 15))]
      (.sized 0 23)) := by
    cbv
  have hread := Document.read_of_sketch hitem rfl
    (show Document.readChain _ =
      ⟨⟨[.call ⟨"name", .sized 10 4⟩ [.expr (.text "a" (.sized 17 3))]], .sized 8 15⟩, []⟩ by cbv)
  refine ⟨_, _, _, hread, List.mem_singleton.mpr rfl, List.mem_singleton.mpr rfl, ?_⟩
  rintro source ⟨before, behind, htext, hstart, hstop⟩
  have hbytes : ∀ c ∈ "sketch:\n- name: \"\\\"a\\\"\"".toList, c.utf8Size = 1 := by simp [Char.utf8Size]
  dsimp only at htext
  rw [htext] at hbytes
  have hlength {cs : List Char} (hcs : cs ⊆ before ++ (source ++ behind)) : width cs = cs.length :=
    Text.width_of_oneByte fun c hc => hbytes c (hcs hc)
  have hbefore : before.length = 17 := by
    rw [hlength (List.subset_append_left _ _)] at hstart
    simpa [Expr.span, Span.sized] using hstart.symm
  have hsource : source.length = 3 := by
    rw [hlength fun c hc => List.mem_append_right _ (List.mem_append_left _ hc)] at hstop
    simp only [Expr.span, Span.sized] at hstop
    omega
  obtain rfl : source = ['\\', '"', 'a'] := by
    have hcut := congrArg (fun cs => (cs.drop 17).take 3) htext
    rw [← hbefore, List.drop_left, hbefore, ← hsource, List.take_left, hsource] at hcut
    exact hcut.symm
  intro content after hcontent e' he
  cases hcontent
  have hfaults : (Expr.read 17 ['"', 'a']).isOk = false := by cbv
  rw [show Expr.read 17 ['"', 'a'] = .ok e' from he] at hfaults
  cases hfaults

end Sketchwork
