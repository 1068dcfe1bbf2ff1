/-
  Sketchwork.Proofs.Document.Acceptance — a tree is accepted exactly when it is a document.

  Sections are read one after the other, each into a part of its own, so where no name comes
  twice a part is what its section says (`foldl_section`), and what all of them report is what
  each reports (`faults_foldl`).

  Proved: in a tree that names no key twice a document is returned exactly for the trees of
  the right shape, and then it holds every parameter, reference, step, list item and map entry
  of the tree once and in order (`accepted_iff_isDocument`).
-/
import Sketchwork.Proofs.Document.Declarations
import Sketchwork.Proofs.Outline.Distinct

namespace Sketchwork

namespace Document

/-! ## Sections -/

/-- What one section reports. -/
def sectionFaults (entry : Item.Entry) : List Diagnostic :=
  (Sections.add {} entry).faults

theorem add_parameters (s : Sections) {entry : Item.Entry} (hkey : entry.1.value = "parameters") :
    s.add entry = { s with
      parameters := (readParameters entry.2).value, faults := s.faults ++ (readParameters entry.2).faults } := by
  unfold Sections.add
  dsimp only
  rw [hkey, if_pos (beq_self_eq_true _)]

theorem add_references (s : Sections) {entry : Item.Entry} (hkey : entry.1.value = "reference") :
    s.add entry = { s with
      references := (readReferences entry.2).value, faults := s.faults ++ (readReferences entry.2).faults } := by
  unfold Sections.add
  dsimp only
  rw [hkey, if_neg (by decide), if_pos (beq_self_eq_true _)]

theorem add_sketch (s : Sections) {entry : Item.Entry} (hkey : entry.1.value = "sketch") :
    s.add entry = { s with
      sketch := some (readChain entry.2).value, faults := s.faults ++ (readChain entry.2).faults } := by
  unfold Sections.add
  dsimp only
  rw [hkey, if_neg (by decide), if_neg (by decide), if_pos (beq_self_eq_true _)]

theorem add_unknown (s : Sections) {entry : Item.Entry} (hparameters : entry.1.value ≠ "parameters")
    (hreferences : entry.1.value ≠ "reference") (hsketch : entry.1.value ≠ "sketch") :
    s.add entry = { s with faults := s.faults ++ [⟨.unknownSection entry.1.value, entry.1.span⟩] } := by
  unfold Sections.add
  dsimp only
  rw [if_neg (by simpa using hparameters), if_neg (by simpa using hreferences), if_neg (by simpa using hsketch)]

/-- An entry is one of the three sections, or none. -/
theorem section_cases (entry : Item.Entry) : entry.1.value = "parameters" ∨ entry.1.value = "reference" ∨
    entry.1.value = "sketch" ∨
      entry.1.value ≠ "parameters" ∧ entry.1.value ≠ "reference" ∧ entry.1.value ≠ "sketch" := by
  by_cases hparameters : entry.1.value = "parameters"
  · exact .inl hparameters
  by_cases hreferences : entry.1.value = "reference"
  · exact .inr (.inl hreferences)
  by_cases hsketch : entry.1.value = "sketch"
  · exact .inr (.inr (.inl hsketch))
  exact .inr (.inr (.inr ⟨hparameters, hreferences, hsketch⟩))

theorem faults_add (s : Sections) (entry : Item.Entry) : (s.add entry).faults = s.faults ++ sectionFaults entry := by
  unfold sectionFaults
  rcases section_cases entry with hkey | hkey | hkey | ⟨hparameters, hreferences, hsketch⟩
  · rw [add_parameters s hkey, add_parameters {} hkey, List.nil_append]
  · rw [add_references s hkey, add_references {} hkey, List.nil_append]
  · rw [add_sketch s hkey, add_sketch {} hkey, List.nil_append]
  · rw [add_unknown s hparameters hreferences hsketch, add_unknown {} hparameters hreferences hsketch, List.nil_append]

theorem faults_foldl (entries : List Item.Entry) : ∀ s : Sections,
    (entries.foldl Sections.add s).faults = s.faults ++ entries.flatMap sectionFaults := by
  induction entries with
  | nil => simp
  | cons entry entries ih =>
    intro s
    rw [List.foldl_cons, ih, faults_add, List.flatMap_cons, List.append_assoc]

/-- What a section reports, and what it holds where it reports nothing. -/
theorem section_reads (entry : Item.Entry) : Part.Reads (IsSection entry) (fun _ =>
      (entry.1.value = "parameters" → Parameter.AllHold entry.2 (readParameters entry.2).value) ∧
      (entry.1.value = "reference" → Reference.AllHold entry.2 (readReferences entry.2).value) ∧
      (entry.1.value = "sketch" → Step.AllHold entry.2 (readChain entry.2).value.steps))
    (⟨(), sectionFaults entry⟩ : Part Unit) := by
  obtain ⟨key, value⟩ := entry
  rcases section_cases (key, value) with hkey | hkey | hkey | ⟨hparameters, hreferences, hsketch⟩
  · have hreferences : key.value ≠ "reference" := by rw [hkey]; decide
    have hsketch : key.value ≠ "sketch" := by rw [hkey]; decide
    refine (readParameters_reads value).made ?_ ⟨.parameters hkey, ?_⟩ ?_
    · simp only [sectionFaults, add_parameters {} hkey, List.nil_append]
    · intro h
      cases h with
      | parameters _ h => exact h
      | references h _ => exact absurd h hreferences
      | sketch h _ => exact absurd h hsketch
    · intro h
      exact ⟨fun _ => h, fun h => absurd h hreferences, fun h => absurd h hsketch⟩
  · have hparameters : key.value ≠ "parameters" := by rw [hkey]; decide
    have hsketch : key.value ≠ "sketch" := by rw [hkey]; decide
    refine (readReferences_reads value).made ?_ ⟨.references hkey, ?_⟩ ?_
    · simp only [sectionFaults, add_references {} hkey, List.nil_append]
    · intro h
      cases h with
      | parameters h _ => exact absurd h hparameters
      | references _ h => exact h
      | sketch h _ => exact absurd h hsketch
    · intro h
      exact ⟨fun h => absurd h hparameters, fun _ => h, fun h => absurd h hsketch⟩
  · have hparameters : key.value ≠ "parameters" := by rw [hkey]; decide
    have hreferences : key.value ≠ "reference" := by rw [hkey]; decide
    refine (readChain_reads value).made ?_ ⟨.sketch hkey, ?_⟩ ?_
    · simp only [sectionFaults, add_sketch {} hkey, List.nil_append]
    · intro h
      cases h with
      | parameters h _ => exact absurd h hparameters
      | references h _ => exact absurd h hreferences
      | sketch _ h => exact h
    · intro h
      exact ⟨fun h => absurd h hparameters, fun h => absurd h hreferences, fun _ => h⟩
  · have hfaults : sectionFaults (key, value) = [⟨.unknownSection key.value, key.span⟩] := by
      simp only [sectionFaults, add_unknown {} hparameters hreferences hsketch, List.nil_append]
    rw [hfaults]
    refine .refused rfl ?_
    intro h
    cases h with
    | parameters h _ => exact hparameters h
    | references h _ => exact hreferences h
    | sketch h _ => exact hsketch h

theorem sections_reads (entries : List Item.Entry) : Part.Reads (∀ entry ∈ entries, IsSection entry) (fun _ =>
      InSection "parameters" entries (fun item => Parameter.AllHold item (readParameters item).value) ∧
      InSection "reference" entries (fun item => Reference.AllHold item (readReferences item).value) ∧
      InSection "sketch" entries (fun item => Step.AllHold item (readChain item).value.steps))
    (⟨(), entries.flatMap sectionFaults⟩ : Part Unit) := by
  induction entries with
  | nil =>
    have hnone (name : String) (held : Item → Prop) : InSection name [] held := fun _ h => absurd h List.not_mem_nil
    exact .given (fun _ h => absurd h List.not_mem_nil) ⟨hnone _ _, hnone _ _, hnone _ _⟩
  | cons entry entries ih =>
    refine (section_reads entry).both ih rfl List.forall_mem_cons.symm ?_
    rintro ⟨hparameters, hreferences, hsketch⟩ ⟨hparameters', hreferences', hsketch'⟩
    exact ⟨List.forall_mem_cons.mpr ⟨hparameters, hparameters'⟩, List.forall_mem_cons.mpr ⟨hreferences, hreferences'⟩,
      List.forall_mem_cons.mpr ⟨hsketch, hsketch'⟩⟩

/-- One part of what was read is what the section of its name, if there is one, says. -/
theorem foldl_section {γ : Type} (get : Sections → γ) {name : String} {value : Item → γ}
    (hself : ∀ (s : Sections) (entry : Item.Entry), entry.1.value = name → get (s.add entry) = value entry.2)
    (hother : ∀ (s : Sections) (entry : Item.Entry), entry.1.value ≠ name → get (s.add entry) = get s)
    (entries : List Item.Entry) :
    (entries.map (·.1.value)).Nodup → ∀ s : Sections,
      InSection name entries (fun item => get (entries.foldl Sections.add s) = value item) ∧
        (NoSection name entries → get (entries.foldl Sections.add s) = get s) := by
  induction entries with
  | nil => exact fun _ s => ⟨nofun, fun _ => rfl⟩
  | cons first entries ih =>
    intro hnodup s
    rw [List.map_cons, List.nodup_cons] at hnodup
    obtain ⟨hin, hnone⟩ := ih hnodup.2 (s.add first)
    rw [List.foldl_cons]
    constructor
    · intro entry hentry hkey
      rcases List.mem_cons.mp hentry with rfl | hentry
      · -- no later section has the name again
        have hlater : NoSection name entries := by
          intro other hother' heq
          exact hnodup.1 (List.mem_map.mpr ⟨other, hother', heq.trans hkey.symm⟩)
        rw [hnone hlater, hself s entry hkey]
      · exact hin entry hentry hkey
    · intro hno
      have hlater : NoSection name entries := fun entry hentry => hno entry (List.mem_cons_of_mem _ hentry)
      rw [hnone hlater, hother s first (hno first List.mem_cons_self)]

theorem parameters_foldl {entries : List Item.Entry} (hnodup : (entries.map (·.1.value)).Nodup) :
    InSection "parameters" entries
        (fun item => (entries.foldl Sections.add {}).parameters = (readParameters item).value) ∧
      (NoSection "parameters" entries → (entries.foldl Sections.add {}).parameters = []) := by
  refine foldl_section Sections.parameters ?_ ?_ entries hnodup {}
  · intro s entry hkey
    rw [add_parameters s hkey]
  · intro s entry hkey
    rcases section_cases entry with h | h | h | ⟨hparameters, hreferences, hsketch⟩
    · exact absurd h hkey
    · rw [add_references s h]
    · rw [add_sketch s h]
    · rw [add_unknown s hparameters hreferences hsketch]

theorem references_foldl {entries : List Item.Entry} (hnodup : (entries.map (·.1.value)).Nodup) :
    InSection "reference" entries
        (fun item => (entries.foldl Sections.add {}).references = (readReferences item).value) ∧
      (NoSection "reference" entries → (entries.foldl Sections.add {}).references = []) := by
  refine foldl_section Sections.references ?_ ?_ entries hnodup {}
  · intro s entry hkey
    rw [add_references s hkey]
  · intro s entry hkey
    rcases section_cases entry with h | h | h | ⟨hparameters, hreferences, hsketch⟩
    · rw [add_parameters s h]
    · exact absurd h hkey
    · rw [add_sketch s h]
    · rw [add_unknown s hparameters hreferences hsketch]

theorem sketch_foldl {entries : List Item.Entry} (hnodup : (entries.map (·.1.value)).Nodup) :
    InSection "sketch" entries (fun item => (entries.foldl Sections.add {}).sketch = some (readChain item).value) ∧
      (NoSection "sketch" entries → (entries.foldl Sections.add {}).sketch = none) := by
  refine foldl_section Sections.sketch ?_ ?_ entries hnodup {}
  · intro s entry hkey
    rw [add_sketch s hkey]
  · intro s entry hkey
    rcases section_cases entry with h | h | h | ⟨hparameters, hreferences, hsketch⟩
    · rw [add_parameters s h]
    · rw [add_references s h]
    · exact absurd h hkey
    · rw [add_unknown s hparameters hreferences hsketch]

theorem sketch_foldl_isSome_iff {entries : List Item.Entry} (hnodup : (entries.map (·.1.value)).Nodup) :
    (entries.foldl Sections.add {}).sketch.isSome = true ↔ ∃ entry ∈ entries, entry.1.value = "sketch" := by
  obtain ⟨hin, hnone⟩ := sketch_foldl hnodup
  constructor
  · intro hsome
    by_contra hno
    have hmissing : NoSection "sketch" entries := fun entry hentry hkey => hno ⟨entry, hentry, hkey⟩
    rw [hnone hmissing] at hsome
    cases hsome
  · rintro ⟨entry, hentry, hkey⟩
    rw [hin entry hentry hkey]
    rfl

/-! ## Whole documents -/

/-- A map is accepted when its sections report nothing and there is a sketch. -/
theorem ofItem_map_eq_ok_iff {entries : List Item.Entry} {span : Span} {d : Document} :
    ofItem (.map entries span) = .ok d ↔
      (entries.flatMap sectionFaults = [] ∧ (entries.foldl Sections.add {}).sketch.isSome = true) ∧
        d = ⟨(entries.foldl Sections.add {}).parameters, (entries.foldl Sections.add {}).references,
          (entries.foldl Sections.add {}).sketch.getD default⟩ := by
  have hfaults : (entries.foldl Sections.add {}).faults = entries.flatMap sectionFaults := by
    rw [faults_foldl, List.nil_append]
  have herrors := (sections_reads entries).errors
  unfold ofItem
  dsimp only
  rw [hfaults]
  generalize entries.flatMap sectionFaults = faults at herrors
  generalize entries.foldl Sections.add {} = s
  have hwarnings : (shadowed (s.parameters.map (·.name)) s.references).any Diagnostic.isError = false := by
    rw [List.any_eq_false]
    intro d hd
    rw [isError_of_mem_shadowed hd]
    exact Bool.false_ne_true
  have hsections : faults.any Diagnostic.isError = false ↔ faults = [] := by
    constructor
    · intro hany
      refine List.eq_nil_iff_forall_not_mem.mpr fun d hd => ?_
      exact List.any_eq_false.mp hany d hd (herrors d hd)
    · rintro rfl
      rfl
  rw [List.any_append, List.any_append, hwarnings, Bool.or_false]
  cases hsketch : s.sketch with
  | none =>
    have hmissing : [(⟨.noSketch, .point span.start⟩ : Diagnostic)].any Diagnostic.isError = true := rfl
    simp [hmissing]
  | some chain =>
    by_cases hnil : faults = []
    · subst hnil
      simp [eq_comm]
    · have hany : faults.any Diagnostic.isError = true := by
        rw [← Bool.not_eq_false, hsections]
        exact hnil
      simp [hany, hnil]

end Document

theorem isDocument_map_iff {entries : List Item.Entry} {span : Span} :
    IsDocument (.map entries span) ↔
      (∀ entry ∈ entries, IsSection entry) ∧ ∃ entry ∈ entries, entry.1.value = "sketch" := by
  constructor
  · rintro ⟨_, _, heq, h⟩
    cases heq
    exact h
  · intro h
    exact ⟨entries, span, rfl, h⟩

/-- A document is returned exactly for the trees that are documents, and it holds all of its tree. -/
theorem accepted_iff_isDocument (root : Item) (h : root.literal.Distinct) :
    ((∃ d, Document.ofItem root = .ok d) ↔ IsDocument root) ∧
      ∀ d, Document.ofItem root = .ok d → ∃ entries span, root = .map entries span ∧ d.Holds entries := by
  by_cases hmap : ∃ entries span, root = .map entries span
  · obtain ⟨entries, span, rfl⟩ := hmap
    have hnodup : (entries.map (·.1.value)).Nodup := by
      rw [(Document.holds_literalEntries entries).1]
      exact h.1
    have hreads := Document.sections_reads entries
    constructor
    · rw [isDocument_map_iff, ← hreads.clean, ← Document.sketch_foldl_isSome_iff hnodup]
      constructor
      · rintro ⟨d, hd⟩
        exact (Document.ofItem_map_eq_ok_iff.mp hd).1
      · intro hok
        exact ⟨_, Document.ofItem_map_eq_ok_iff.mpr ⟨hok, rfl⟩⟩
    · intro d hd
      obtain ⟨⟨hnil, _⟩, rfl⟩ := Document.ofItem_map_eq_ok_iff.mp hd
      obtain ⟨hparameters, hreferences, hsketch⟩ := hreads.held hnil
      refine ⟨entries, span, rfl, ?_, (Document.parameters_foldl hnodup).2, ?_,
        (Document.references_foldl hnodup).2, ?_⟩
      · intro entry hentry hkey
        dsimp only
        rw [(Document.parameters_foldl hnodup).1 entry hentry hkey]
        exact hparameters entry hentry hkey
      · intro entry hentry hkey
        dsimp only
        rw [(Document.references_foldl hnodup).1 entry hentry hkey]
        exact hreferences entry hentry hkey
      · intro entry hentry hkey
        dsimp only
        rw [(Document.sketch_foldl hnodup).1 entry hentry hkey]
        exact hsketch entry hentry hkey
  · have hrefused : Document.ofItem root = .error [⟨.notSections, root.span⟩] := by
      unfold Document.ofItem
      split
      · exact absurd ⟨_, _, rfl⟩ hmap
      · rfl
    rw [hrefused]
    refine ⟨⟨nofun, ?_⟩, nofun⟩
    rintro ⟨entries, span, rfl, _⟩
    exact absurd ⟨entries, span, rfl⟩ hmap

/-- A tree with a parameter of each form, a reference of each kind and a chain in a chain. -/
def flagTree : Item :=
  .map [
    (word "parameters", .seq [text "$width",
      .map [(word "height", .map [(word "default", text "2"), (word "note", text "(")] origin)] origin] origin),
    (word "reference", .map [(word "$pole:sketch", .null origin), (word "half", text "$width + $width")] origin),
    (word "sketch", .seq [.map [(word "point", .seq [text "half", text " "] origin)] origin,
      .map [(word "sketch", .seq [.map [(word "name", text "'flag'")] origin] origin)] origin] origin)] origin
where
  origin : Span := .point 0
  word (s : String) : Spanned String := ⟨s, origin⟩
  text (s : String) : Item := .text s false origin

theorem flagTree_accepted : flagTree.literal.Distinct ∧ IsDocument flagTree ∧
    ∃ d, Document.ofItem flagTree = .ok d ∧ ∃ entries span, flagTree = .map entries span ∧ d.Holds entries := by
  have hdistinct : flagTree.literal.Distinct := by
    simp [flagTree, flagTree.word, flagTree.text, Item.literal, Item.literal.literals, Item.literal.literalEntries,
      Literal.Distinct, Literal.AllDistinct, Literal.EntriesDistinct]
  obtain ⟨haccepted, hholds⟩ := accepted_iff_isDocument flagTree hdistinct
  have hread : (Document.ofItem flagTree).toOption.isSome = true := by decide +kernel
  obtain ⟨d, hd⟩ : ∃ d, Document.ofItem flagTree = .ok d := by
    cases hd : Document.ofItem flagTree with
    | ok d => exact ⟨d, rfl⟩
    | error ds =>
      rw [hd] at hread
      cases hread
  exact ⟨hdistinct, haccepted.mp ⟨d, hd⟩, d, hd, hholds d hd⟩

end Sketchwork
