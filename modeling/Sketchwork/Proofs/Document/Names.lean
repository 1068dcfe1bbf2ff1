/-
  Sketchwork.Proofs.Document.Names — what the names in a document stand for.

  A name is declared by a parameter or by a reference, and seen by the references behind it and
  by the chain. Three things have to fit for a name to be of use: what is bound to it, where it
  is seen, and that an expression can spell it.

  Proved: declared names are identifiers (`isIdentifier_of_mem_declared`); what a reference is
  bound to does not change with what follows it, a name that is not declared before is reported
  where it is looked up and no other name is, and every declared name is the variable that its
  sigil spells (`resolves_names`).
-/
import Mathlib
import Sketchwork.Proofs.Document.Acceptance
import Sketchwork.Proofs.Expr.Variables
import Sketchwork.Proofs.Feature.Bindings

namespace Sketchwork

/-! ## Declared names -/

namespace Document

def IsIdentifier (name : Spanned String) : Prop :=
  isIdentifier name.value.toList = true

theorem isIdentifier_of_name? {kind : Declared} {raw n : Spanned String} (h : (name? kind raw).value = some n) :
    IsIdentifier n := by
  rcases name?_cases kind raw with ⟨m, hm, hdeclares⟩ | ⟨d, hm, -⟩
  · rw [hm] at h
    cases h
    exact hdeclares.1
  · rw [hm] at h
    cases h

theorem exists_of_mem_collect {α β : Type} {f : α → Part (Option β)} {xs : List α} {b : β}
    (h : b ∈ (collect f xs).value) : ∃ a, (f a).value = some b := by
  obtain ⟨part, hpart, hb⟩ := List.mem_filterMap.mp h
  obtain ⟨a, -, rfl⟩ := List.mem_map.mp hpart
  exact ⟨a, hb⟩

theorem isIdentifier_of_parameterEntry {entry : Item.Entry} {p : Parameter}
    (h : (parameterEntry entry).value = some p) : IsIdentifier p.name := by
  obtain ⟨n, hn, rfl⟩ := Option.map_eq_some_iff.mp h
  exact isIdentifier_of_name? hn

theorem isIdentifier_of_parameterItem {item : Item} {p : Parameter} (h : (parameterItem item).value = some p) :
    IsIdentifier p.name := by
  unfold parameterItem at h
  split at h
  · obtain ⟨n, hn, rfl⟩ := Option.map_eq_some_iff.mp h
    exact isIdentifier_of_name? hn
  · split at h
    · exact isIdentifier_of_parameterEntry h
    · cases h

theorem isIdentifier_of_mem_readParameters {item : Item} {p : Parameter} (h : p ∈ (readParameters item).value) :
    IsIdentifier p.name := by
  unfold readParameters at h
  split at h
  case h_2 =>
    obtain ⟨_, h⟩ := exists_of_mem_collect h
    exact isIdentifier_of_parameterItem h
  case h_3 =>
    obtain ⟨_, h⟩ := exists_of_mem_collect h
    exact isIdentifier_of_parameterEntry h
  all_goals cases h

theorem isIdentifier_of_referenceEntry {entry : Item.Entry} {r : Reference}
    (h : (referenceEntry entry).value = some r) : IsIdentifier r.name := by
  unfold referenceEntry at h
  dsimp only at h
  split at h
  all_goals
    split at h
    · cases h
    · rename_i hn
      cases h
      exact isIdentifier_of_name? hn

theorem isIdentifier_of_referenceItem {item : Item} {r : Reference} (h : (referenceItem item).value = some r) :
    IsIdentifier r.name := by
  unfold referenceItem at h
  split at h
  · exact isIdentifier_of_referenceEntry h
  · cases h

theorem isIdentifier_of_mem_readReferences {item : Item} {r : Reference} (h : r ∈ (readReferences item).value) :
    IsIdentifier r.name := by
  unfold readReferences at h
  split at h
  case h_2 =>
    obtain ⟨_, h⟩ := exists_of_mem_collect h
    exact isIdentifier_of_referenceItem h
  case h_3 =>
    obtain ⟨_, h⟩ := exists_of_mem_collect h
    exact isIdentifier_of_referenceEntry h
  all_goals cases h

/-- All names declared so far are identifiers. -/
structure Sections.Named (s : Sections) : Prop where
  parameters : ∀ p ∈ s.parameters, IsIdentifier p.name
  references : ∀ r ∈ s.references, IsIdentifier r.name

theorem Sections.Named.add {s : Sections} (h : s.Named) (entry : Item.Entry) : (s.add entry).Named := by
  unfold Sections.add
  dsimp only
  split
  · exact ⟨fun p hp => isIdentifier_of_mem_readParameters hp, h.references⟩
  split
  · exact ⟨h.parameters, fun r hr => isIdentifier_of_mem_readReferences hr⟩
  split
  · exact ⟨h.parameters, h.references⟩
  · exact ⟨h.parameters, h.references⟩

theorem Sections.Named.foldl {s : Sections} (h : s.Named) (entries : List Item.Entry) :
    (entries.foldl Sections.add s).Named := by
  induction entries generalizing s with
  | nil => exact h
  | cons entry entries ih => exact ih (h.add entry)

/-- The names that a document declares. -/
def declared (d : Document) : List (Spanned String) :=
  d.parameters.map (·.name) ++ d.references.map (·.name)

theorem isIdentifier_of_mem_declared {root : Item} {d : Document} (h : ofItem root = .ok d) {name : Spanned String}
    (hname : name ∈ d.declared) : IsIdentifier name := by
  cases root with
  | map entries span =>
    obtain ⟨-, rfl⟩ := ofItem_map_eq_ok_iff.mp h
    have hnamed : (entries.foldl Sections.add {}).Named := Sections.Named.foldl ⟨by simp, by simp⟩ entries
    rcases List.mem_append.mp hname with hname | hname
    · obtain ⟨p, hp, rfl⟩ := List.mem_map.mp hname
      exact hnamed.parameters p hp
    · obtain ⟨r, hr, rfl⟩ := List.mem_map.mp hname
      exact hnamed.references r hr
  | _ => cases h

/-! ## Names in a document -/

/-- What a name stands for is settled by what is declared before it: a binding does not depend on
    what follows it; where an argument is evaluated, the names that are reported are those it
    comes to look up and that are not declared before; and what is declared can be spelled. -/
theorem resolves_names (d : Document) :
    (∀ i call args node, d.evaluate call args node =
      (d.scopeAt call args i >>= bindReferences call (d.references.drop i)) >>= (d.sketch.run call · node)) ∧
    (∀ (d' : Document) (i : Nat), d'.parameters = d.parameters →
      d'.references.take (i + 1) = d.references.take (i + 1) →
        ∀ call args w, (d'.outcomes call args w)[i]? = (d.outcomes call args w)[i]?) ∧
    (∀ call args i w scope w', d.scopeAt call args i w = (.ok scope, w') →
      (∃ values : List Value, (d.outcomes call args w).take i = values.map .ok ∧
        scope = (bindParameters d.parameters args .empty).bindAll
          (((d.references.take i).map (·.name.value)).zip values)) ∧
      ∀ (arg : Arg) (x : String),
        (arg.eval scope = .error (.unbound x) ↔ (∃ span, arg.Reaches scope (.variable x span)) ∧
          x ∉ d.declaredAt i ∧ x ≠ "PI" ∧ x ≠ "E") ∧
        (arg.eval scope = .error (.unbound x) → x ∈ arg.names)) ∧
    (∀ call args w arg i scope, d.Asks call args w arg i scope →
      ∀ x span, arg.Reaches scope (.variable x span) → x ∉ d.declaredAt i → x ≠ "PI" → x ≠ "E" →
        ∀ node, ∃ w', d.evaluate call args node w = (.error (.unbound x), w')) ∧
    ∀ root, ofItem root = .ok d → ∀ name ∈ d.declared, ∀ offset,
      (∃ span, Expr.read offset ('$' :: name.value.toList) = .ok (.variable name.value span)) ∧
      ((∃ span, Expr.read offset name.value.toList = .ok (.variable name.value span)) ↔
        name.value ∉ Lexer.keywords) := by
  refine ⟨evaluate_scopeAt d, ?_, ?_, ?_, ?_⟩
  · intro d' i hparameters hreferences call args w
    exact getElem?_outcomes_congr hparameters hreferences
  · intro call args i w scope w' hscope
    refine ⟨outcomes_of_scopeAt hscope, fun arg x => ?_⟩
    have hunbound : arg.eval scope = .error (.unbound x) ↔ _ := arg.eval_eq_unbound_iff
    constructor
    · rw [hunbound, lookup?_scopeAt hscope]
    · intro h
      obtain ⟨⟨span, hreaches⟩, -⟩ := hunbound.mp h
      exact Arg.names_of_reaches hreaches (List.mem_singleton_self x)
  · intro call args w arg i scope hasks x span hreaches hdeclared hpi he node
    obtain ⟨w', hscope⟩ := scopeAt_of_asks hasks
    have hnone := (lookup?_scopeAt hscope).mpr ⟨hdeclared, hpi, he⟩
    exact evaluate_of_asks hasks (Arg.eval_eq_unbound_iff.mpr ⟨⟨span, hreaches⟩, hnone⟩)
  · intro root hroot name hname offset
    have hident := isIdentifier_of_mem_declared hroot hname
    have hspelled := Expr.read_sigil hident offset
    have hbare := Expr.read_bare_iff hident offset
    rw [String.ofList_toList] at hspelled hbare
    exact ⟨hspelled, hbare⟩

end Document

/-- A document whose reference sees the parameter, and whose step asks for a name that nothing declares. -/
def captionTree : Item :=
  .map [(word "parameters", parameters), (word "reference", references), (word "sketch", chain)] origin
where
  origin : Span := .point 0
  word (s : String) : Spanned String := ⟨s, origin⟩
  text (s : String) : Item := .text s false origin
  parameters : Item := .map [(word "title", text "flag")] origin
  references : Item := .map [(word "caption", text "$title")] origin
  chain : Item := .seq [.map [(word "name", text "missing")] origin] origin

def captionDocument : Document :=
  ⟨[⟨captionTree.word "title", .text "flag"⟩],
    [⟨captionTree.word "caption", .plain (.expr (.variable "title" (.between 0 6)))⟩],
    ⟨[.call (captionTree.word "name") [.expr (.variable "missing" (.between 0 7))]], captionTree.origin⟩⟩

theorem arg_of_tokenize {s n : String} {span origin : Span} (hblank : (Text.trim s.toList).isEmpty = false)
    (sigil : Bool) (h : Lexer.tokenize origin.start s.toList = .ok [⟨.name sigil n, span⟩]) :
    Document.arg (.text s false origin) = ⟨.expr (.variable n span), []⟩ := by
  have hread : Expr.read origin.start s.toList = .ok (.variable n span) := by
    rw [Expr.read_of_tokenize h, Parser.expression_name]
  have hstart : (Item.text s false origin).contentStart = origin.start := rfl
  rw [Document.arg, Document.argOfText, hblank, if_neg Bool.false_ne_true, hstart, hread]

namespace captionTree

theorem read_parameters : Document.readParameters parameters = ⟨captionDocument.parameters, []⟩ := by
  cbv

theorem read_references : Document.readReferences references = ⟨captionDocument.references, []⟩ := by
  have htitle : Document.arg (text "$title") = ⟨.expr (.variable "title" (.between 0 6)), []⟩ :=
    arg_of_tokenize (by decide) true (by cbv)
  have hname : Document.name? .reference (word "caption") = ⟨some (word "caption"), []⟩ := by cbv
  have hplain : ¬Document.sketchSuffix.isSuffixOf (word "caption").value.toList = true := by decide
  rw [references, Document.readReferences, Document.collect, List.map_singleton, Document.referenceEntry]
  dsimp only
  rw [if_neg hplain, hname, htitle]
  rfl

theorem read_chain : Document.readChain chain = ⟨captionDocument.sketch, []⟩ := by
  have hmissing : Document.arg (text "missing") = ⟨.expr (.variable "missing" (.between 0 7)), []⟩ :=
    arg_of_tokenize (by decide) false (by cbv)
  have hargs : Document.stepArgs (text "missing") = ⟨[.expr (.variable "missing" (.between 0 7))], []⟩ := by
    show (⟨[(Document.arg _).value], (Document.arg _).faults⟩ : Document.Part _) = _
    rw [hmissing]
  have hcall : ¬((word "name").value == Document.nestedStep) = true := by decide
  rw [chain, Document.readChain, Document.steps, Document.stepItems, Document.step?, if_neg hcall, hargs,
    Document.stepItems]
  rfl

theorem ofItem_eq : Document.ofItem captionTree = .ok captionDocument := by
  have hparameters (s : Document.Sections) : s.add (word "parameters", parameters) = _ := Document.add_parameters s rfl
  have hreferences (s : Document.Sections) : s.add (word "reference", references) = _ := Document.add_references s rfl
  have hsketch (s : Document.Sections) : s.add (word "sketch", chain) = _ := Document.add_sketch s rfl
  refine Document.ofItem_map_eq_ok_iff.mpr ?_
  simp only [List.foldl_cons, List.foldl_nil, List.flatMap_cons, List.flatMap_nil, Document.sectionFaults,
    hparameters, hreferences, hsketch, read_parameters, read_references, read_chain]
  exact ⟨⟨rfl, rfl⟩, rfl⟩

end captionTree

/-- With one more reference, which declares the name, and without the step. -/
def captionDocument.noted : Document :=
  { captionDocument with
    references := captionDocument.references ++ [⟨captionTree.word "missing", .plain (.literal .null)⟩]
    sketch := ⟨[], captionTree.origin⟩ }

theorem captionDocument_resolves_names :
    (captionDocument.noted.outcomes (Registry.dispatch [] 0) [] ⟨1, []⟩)[0]? =
        (captionDocument.outcomes (Registry.dispatch [] 0) [] ⟨1, []⟩)[0]? ∧
      (∃ scope, captionDocument.scopeAt (Registry.dispatch [] 0) [] 1 ⟨1, []⟩ = (.ok scope, ⟨1, []⟩) ∧
        (Arg.expr (.variable "missing" (.between 0 7))).eval scope = .error (.unbound "missing")) ∧
      (∃ w', captionDocument.evaluate (Registry.dispatch [] 0) [] (.empty ⟨0⟩) ⟨1, []⟩ =
        (.error (.unbound "missing"), w')) ∧
      ∃ span, Expr.read 3 ('$' :: "title".toList) = .ok (.variable "title" span) := by
  obtain ⟨-, hbound, hunbound, hfails, hspelled⟩ := captionDocument.resolves_names
  have hscope : captionDocument.scopeAt (Registry.dispatch [] 0) [] 1 ⟨1, []⟩ =
      (.ok ⟨[("title", .text "flag"), ("caption", .text "flag")]⟩, ⟨1, []⟩) := by
    rfl
  have hundeclared : "missing" ∉ captionDocument.declaredAt 1 := by decide
  have hreaches (scope : Scope) : Arg.Reaches scope (.expr (.variable "missing" (.between 0 7)))
      (.variable "missing" (.between 0 7)) :=
    .expr (.self _)
  refine ⟨hbound captionDocument.noted 0 rfl rfl _ _ _, ⟨_, hscope, ?_⟩, ?_, ?_⟩
  · exact (((hunbound _ _ _ _ _ _ hscope).2 _ "missing").1).mpr ⟨⟨_, hreaches _⟩, hundeclared, by decide, by decide⟩
  · have hasks : captionDocument.Asks (Registry.dispatch [] 0) [] ⟨1, []⟩
        (.expr (.variable "missing" (.between 0 7))) 1 ⟨[("title", .text "flag"), ("caption", .text "flag")]⟩ :=
      .drawing hscope (.argument (show Arg.evalAll _ [] = .ok [] from rfl))
    exact hfails _ _ _ _ _ _ hasks "missing" _ (hreaches _) hundeclared (by decide) (by decide) _
  · have hname : captionTree.word "title" ∈ captionDocument.declared := by decide
    exact (hspelled captionTree captionTree.ofItem_eq _ hname 3).1

end Sketchwork
