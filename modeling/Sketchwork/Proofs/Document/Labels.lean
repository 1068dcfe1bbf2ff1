/-
  Sketchwork.Proofs.Document.Labels — where the labels of a rejected document point.

  A reader of part of a document reports at the place of an item, of a key, or within the text
  of a scalar, and of these places it is known that they lie in the text. A name loses its
  sigil, so its range begins one byte later; there is room for it, as a key takes no more room
  than what is written for it.

  Proved: every label of what is reported ends within the text, and where every character is one
  byte it can be cut from it, except that of a colon that is missing at its end (`labels_within`).
-/
import Mathlib
import Sketchwork.Proofs.Expr.Faults
import Sketchwork.Proofs.Outline.Extents

namespace Sketchwork

open Text (width)

namespace Document

variable {hi : Nat}

/-- What a reader returns is good, and no label of what it reports goes on behind `hi`. -/
structure Part.Fits {α : Type} (hi : Nat) (good : α → Prop) (p : Part α) : Prop where
  value : good p.value
  faults : ∀ d ∈ p.faults, d.Fits hi

/-! ## Arguments and chains -/

theorem argOfText_fits {s : String} {item : Item} (h : item.contentStart + width s.toList ≤ hi) :
    ∀ d ∈ (argOfText s item).faults, d.Fits hi := by
  unfold argOfText
  split
  · exact fun _ hd => absurd hd List.not_mem_nil
  · rename_i hblank
    have hne : s.toList ≠ [] := by
      intro hnil
      rw [hnil] at hblank
      exact hblank rfl
    split
    · exact fun _ hd => absurd hd List.not_mem_nil
    · rename_i faults he
      obtain ⟨-, hwithin⟩ := Expr.read_faults hne he
      exact fun d hd => .of_span (Nat.le_trans (hwithin d hd).within.stop h) (hwithin d hd).alone

mutual

theorem arg_fits : ∀ {item : Item}, item.Fits hi → ∀ d ∈ (arg item).faults, d.Fits hi
  | .null _, _ | .bool .., _ | .number .., _ => fun _ hd => absurd hd List.not_mem_nil
  | .text .., .text _ content => argOfText_fits content
  | .seq .., .seq _ hitems => by
    rw [arg]
    exact args_fit hitems
  | .map .., .map _ _ hvalues => by
    rw [arg]
    exact argEntries_fit hvalues

theorem args_fit : ∀ {items : List Item}, (∀ item ∈ items, item.Fits hi) → ∀ d ∈ (args items).faults, d.Fits hi
  | [], _ => fun _ hd => absurd hd List.not_mem_nil
  | item :: items, h => by
    obtain ⟨hitem, hitems⟩ := List.forall_mem_cons.mp h
    rw [args]
    exact List.forall_mem_append.mpr ⟨arg_fits hitem, args_fit hitems⟩

theorem argEntries_fit : ∀ {entries : List Item.Entry}, (∀ e ∈ entries, e.2.Fits hi) →
    ∀ d ∈ (argEntries entries).faults, d.Fits hi
  | [], _ => fun _ hd => absurd hd List.not_mem_nil
  | (key, value) :: entries, h => by
    obtain ⟨hvalue, hvalues⟩ := List.forall_mem_cons.mp h
    rw [argEntries]
    exact List.forall_mem_append.mpr ⟨arg_fits hvalue, argEntries_fit hvalues⟩

end

theorem stepArgs_fit {item : Item} (h : item.Fits hi) : ∀ d ∈ (stepArgs item).faults, d.Fits hi := by
  cases h with
  | null h => exact fun _ hd => absurd hd List.not_mem_nil
  | seq h hitems => exact args_fit hitems
  | bool h => exact arg_fits (.bool h)
  | number h => exact arg_fits (.number h)
  | text h content => exact arg_fits (.text h content)
  | map h hkeys hvalues => exact arg_fits (.map h hkeys hvalues)

theorem fits_of_shape {item : Item} {fault : Fault} (h : item.Fits hi) (hfault : fault.elsewhere = none) :
    ∀ d ∈ [(⟨fault, item.span⟩ : Diagnostic)], d.Fits hi :=
  List.forall_mem_singleton.mpr (.of_span h.span hfault)

mutual

theorem steps_fit : ∀ {item : Item}, item.Fits hi → ∀ d ∈ (steps item).faults, d.Fits hi
  | .null _, _ => by
    rw [steps]
    exact fun _ hd => absurd hd List.not_mem_nil
  | .seq .., .seq _ hitems => by
    rw [steps]
    exact stepItems_fit hitems
  | .bool .., h | .number .., h | .text .., h | .map .., h => by
    rw [steps]
    · exact fits_of_shape h rfl
    · nofun
    · nofun

theorem stepItems_fit : ∀ {items : List Item}, (∀ item ∈ items, item.Fits hi) →
    ∀ d ∈ (stepItems items).faults, d.Fits hi
  | [], _ => by
    rw [stepItems]
    exact fun _ hd => absurd hd List.not_mem_nil
  | item :: items, h => by
    obtain ⟨hitem, hitems⟩ := List.forall_mem_cons.mp h
    rw [stepItems]
    exact List.forall_mem_append.mpr ⟨step?_fits hitem, stepItems_fit hitems⟩

theorem step?_fits : ∀ {item : Item}, item.Fits hi → ∀ d ∈ (step? item).faults, d.Fits hi
  | .map [(key, value)] _, .map _ _ hvalues => by
    have hvalue : value.Fits hi := hvalues (key, value) List.mem_cons_self
    rw [step?]
    split
    · exact steps_fit hvalue
    · exact stepArgs_fit hvalue
  | .map [] _, h | .map (_ :: _ :: _) _, h | .null _, h | .bool .., h | .number .., h | .text .., h | .seq .., h => by
    rw [step?]
    · exact fits_of_shape h rfl
    · nofun

end

/-! ## Names -/

/-- The range of a name, if there is one, ends by `hi`. -/
def NameFits (hi : Nat) (name : Option (Spanned String)) : Prop :=
  ∀ n ∈ name, n.span.stop ≤ hi

theorem name?_fits (kind : Declared) {raw : Spanned String} (h : raw.Fits hi) :
    (name? kind raw).Fits hi (NameFits hi) := by
  have hbare {bare : Spanned String} (hbare : bare.span.stop ≤ hi) : Part.Fits hi (NameFits hi)
      (if isIdentifier bare.value.toList then ⟨some bare, []⟩ else ⟨none, [⟨.invalidName kind raw.value, raw.span⟩]⟩) := by
    split
    · refine ⟨?_, fun _ hd => absurd hd List.not_mem_nil⟩
      rintro _ ⟨⟩
      exact hbare
    · exact ⟨fun _ hn => absurd hn (Option.not_mem_none _), List.forall_mem_singleton.mpr (.of_span h.span rfl)⟩
  unfold name?
  dsimp only
  split
  · rename_i word hraw
    have hroom := h.content
    rw [hraw, Text.width_cons] at hroom
    have hsigil : '$'.utf8Size = 1 := rfl
    exact hbare (between_stop_le (by omega) h.span)
  · exact hbare h.span

/-! ## Parameters -/

theorem collect_fits {α β : Type} {f : α → Part (Option β)} {good : β → Prop} {xs : List α}
    (h : ∀ x ∈ xs, (f x).Fits hi fun found => ∀ b ∈ found, good b) :
    (collect f xs).Fits hi fun found => ∀ b ∈ found, good b := by
  refine ⟨?_, ?_⟩
  · intro b hb
    obtain ⟨p, hp, hvalue⟩ := List.mem_filterMap.mp hb
    obtain ⟨x, hx, rfl⟩ := List.mem_map.mp hp
    exact (h x hx).value b hvalue
  · intro d hd
    obtain ⟨p, hp, hfault⟩ := List.mem_flatMap.mp hd
    obtain ⟨x, hx, rfl⟩ := List.mem_map.mp hp
    exact (h x hx).faults d hfault

theorem parameter_fits {raw : Spanned String} (h : raw.Fits hi) (default : Literal) :
    Part.Fits hi (fun found => ∀ p ∈ found, p.name.span.stop ≤ hi)
      ⟨(name? .parameter raw).value.map fun n => (⟨n, default⟩ : Parameter), (name? .parameter raw).faults⟩ := by
  obtain ⟨hname, hfaults⟩ := name?_fits .parameter h
  refine ⟨?_, hfaults⟩
  intro p hp
  obtain ⟨n, hn, rfl⟩ := Option.map_eq_some_iff.mp hp
  exact hname n hn

theorem parameterEntry_fits {entry : Item.Entry} (h : Flow.EntryFits hi entry) :
    (parameterEntry entry).Fits hi fun found => ∀ p ∈ found, p.name.span.stop ≤ hi :=
  parameter_fits h.1 _

theorem entryFits_of_single {item : Item} {entry : Item.Entry} (h : item.Fits hi)
    (hentry : item.singleEntry? = some entry) : Flow.EntryFits hi entry := by
  cases h with
  | null | bool | number | text | seq => cases hentry
  | @map entries span _ hkeys hvalues =>
    match entries, hentry with
    | [_], rfl => exact ⟨hkeys _ List.mem_cons_self, hvalues _ List.mem_cons_self⟩

/-- An item that is one entry, or is reported. -/
theorem singleEntry_fits {α : Type} {good : α → Prop} {f : Item.Entry → Part (Option α)} {fault : Fault} {item : Item}
    (hfault : fault.elsewhere = none) (h : item.Fits hi)
    (hf : ∀ entry, Flow.EntryFits hi entry → (f entry).Fits hi fun found => ∀ a ∈ found, good a) :
    Part.Fits hi (fun found => ∀ a ∈ found, good a) (match item.singleEntry? with
      | some entry => f entry
      | none => ⟨none, [⟨fault, item.span⟩]⟩) := by
  cases hentry : item.singleEntry? with
  | none => exact ⟨fun _ ha => absurd ha (Option.not_mem_none _), fits_of_shape h hfault⟩
  | some entry => exact hf entry (entryFits_of_single h hentry)

theorem parameterItem_fits {item : Item} (h : item.Fits hi) :
    (parameterItem item).Fits hi fun found => ∀ p ∈ found, p.name.span.stop ≤ hi := by
  unfold parameterItem
  split
  · rename_i s quoted span
    cases h with
    | text h content =>
      refine parameter_fits ⟨h, ?_⟩ _
      dsimp only
      cases quoted with
      | true =>
        simp only [Item.contentStart] at content
        omega
      | false => exact content
  · exact singleEntry_fits rfl h fun _ => parameterEntry_fits

theorem readParameters_fits {item : Item} (h : item.Fits hi) :
    (readParameters item).Fits hi fun found => ∀ p ∈ found, p.name.span.stop ≤ hi := by
  have hshape : Part.Fits hi (fun found => ∀ p ∈ found, p.name.span.stop ≤ hi)
      (⟨[], [⟨.parametersShape, item.span⟩]⟩ : Part (List Parameter)) :=
    ⟨fun _ hp => absurd hp List.not_mem_nil, fits_of_shape h rfl⟩
  cases h with
  | null => exact ⟨fun _ hp => absurd hp List.not_mem_nil, fun _ hd => absurd hd List.not_mem_nil⟩
  | seq _ hitems => exact collect_fits fun item hitem => parameterItem_fits (hitems item hitem)
  | map _ hkeys hvalues => exact collect_fits fun e he => parameterEntry_fits ⟨hkeys e he, hvalues e he⟩
  | bool | number | text => exact hshape

/-! ## References -/

theorem readChain_fits {item : Item} (h : item.Fits hi) : ∀ d ∈ (readChain item).faults, d.Fits hi :=
  steps_fit h

/-- What is reported of a name, or a reference with the name. -/
theorem reference_fits {named : Part (Option (Spanned String))} (h : named.Fits hi (NameFits hi)) (binding : Binding)
    {faults : List Diagnostic} (hfaults : ∀ d ∈ faults, d.Fits hi) :
    Part.Fits hi (fun found => ∀ r ∈ found, r.name.span.stop ≤ hi) (match named.value with
      | none => ⟨none, named.faults⟩
      | some n => ⟨some (⟨n, binding⟩ : Reference), faults⟩) := by
  obtain ⟨name, unnamed⟩ := named
  cases name with
  | none => exact ⟨fun _ hr => absurd hr (Option.not_mem_none _), h.faults⟩
  | some n =>
    refine ⟨?_, hfaults⟩
    rintro _ ⟨⟩
    exact h.value n rfl

theorem bare_fits {key : Spanned String} (h : key.Fits hi) (n : Nat) : Spanned.Fits hi
    ⟨String.ofList (key.value.toList.take n), .between key.span.start (key.span.stop - sketchSuffix.length)⟩ := by
  have hstop := h.span
  have hcontent := h.content
  have hordered := key.span.ordered
  have hstart := Flow.between_start_le key.span.start (key.span.stop - sketchSuffix.length)
  have hwidth := Text.width_le_of_isPrefix (List.take_prefix n key.value.toList)
  refine ⟨between_stop_le (by omega) (by omega), ?_⟩
  dsimp only
  rw [String.toList_ofList]
  omega

theorem referenceEntry_fits {entry : Item.Entry} (h : Flow.EntryFits hi entry) :
    (referenceEntry entry).Fits hi fun found => ∀ r ∈ found, r.name.span.stop ≤ hi := by
  obtain ⟨key, value⟩ := entry
  obtain ⟨hkey, hvalue⟩ := h
  unfold referenceEntry
  dsimp only
  by_cases hsuffix : sketchSuffix.isSuffixOf key.value.toList = true
  · rw [if_pos hsuffix]
    have hname := name?_fits .reference (bare_fits hkey (key.value.toList.length - sketchSuffix.length))
    generalize name? .reference _ = named at hname ⊢
    exact reference_fits hname (.sketch (readChain value).value) (readChain_fits hvalue)
  · rw [if_neg hsuffix]
    have hname := name?_fits .reference hkey
    generalize name? .reference key = named at hname ⊢
    exact reference_fits hname (.plain (arg value).value) (arg_fits hvalue)

theorem readReferences_fits {item : Item} (h : item.Fits hi) :
    (readReferences item).Fits hi fun found => ∀ r ∈ found, r.name.span.stop ≤ hi := by
  have hshape : Part.Fits hi (fun found => ∀ r ∈ found, r.name.span.stop ≤ hi)
      (⟨[], [⟨.referencesShape, item.span⟩]⟩ : Part (List Reference)) :=
    ⟨fun _ hr => absurd hr List.not_mem_nil, fits_of_shape h rfl⟩
  cases h with
  | null => exact ⟨fun _ hr => absurd hr List.not_mem_nil, fun _ hd => absurd hd List.not_mem_nil⟩
  | seq _ hitems =>
    exact collect_fits fun item hitem => singleEntry_fits rfl (hitems item hitem) fun _ => referenceEntry_fits
  | map _ hkeys hvalues => exact collect_fits fun e he => referenceEntry_fits ⟨hkeys e he, hvalues e he⟩
  | bool | number | text => exact hshape

/-- A name that shadows another one is reported with both places. -/
theorem shadowed_fit {references : List Reference} : ∀ {earlier : List (Spanned String)},
    (∀ n ∈ earlier, n.span.stop ≤ hi) → (∀ r ∈ references, r.name.span.stop ≤ hi) →
    ∀ d ∈ shadowed earlier references, d.Fits hi := by
  induction references with
  | nil => exact fun _ _ _ hd => absurd hd List.not_mem_nil
  | cons r rs ih =>
    intro earlier hearlier hreferences
    obtain ⟨hr, hrs⟩ := List.forall_mem_cons.mp hreferences
    have hmore := List.forall_mem_append.mpr ⟨hearlier, List.forall_mem_singleton.mpr hr⟩
    refine List.forall_mem_append.mpr ⟨?_, ih hmore hrs⟩
    intro d hd
    obtain ⟨first, hfirst, rfl⟩ := Option.map_eq_some_iff.mp (Option.mem_toList.mp hd)
    refine ⟨hr, ?_⟩
    rintro _ ⟨⟩
    exact hearlier first (List.mem_of_find?_eq_some hfirst)

/-! ## Sections -/

/-- The sections read so far, with names that end by `hi` and faults that lie before. -/
structure Sections.Fit (hi : Nat) (s : Sections) : Prop where
  parameters : ∀ p ∈ s.parameters, p.name.span.stop ≤ hi
  references : ∀ r ∈ s.references, r.name.span.stop ≤ hi
  faults : ∀ d ∈ s.faults, d.Fits hi

theorem add_fit {s : Sections} (h : s.Fit hi) {entry : Item.Entry} (hentry : Flow.EntryFits hi entry) :
    (s.add entry).Fit hi := by
  obtain ⟨key, value⟩ := entry
  obtain ⟨hkey, hvalue⟩ := hentry
  unfold Sections.add
  dsimp only
  split
  · have hread := readParameters_fits hvalue
    exact ⟨hread.value, h.references, List.forall_mem_append.mpr ⟨h.faults, hread.faults⟩⟩
  split
  · have hread := readReferences_fits hvalue
    exact ⟨h.parameters, hread.value, List.forall_mem_append.mpr ⟨h.faults, hread.faults⟩⟩
  split
  · exact ⟨h.parameters, h.references, List.forall_mem_append.mpr ⟨h.faults, readChain_fits hvalue⟩⟩
  · exact ⟨h.parameters, h.references,
      List.forall_mem_append.mpr ⟨h.faults, List.forall_mem_singleton.mpr (.of_span hkey.span rfl)⟩⟩

theorem foldl_add_fit {entries : List Item.Entry} (hentries : ∀ e ∈ entries, Flow.EntryFits hi e) :
    ∀ {s : Sections}, s.Fit hi → (entries.foldl Sections.add s).Fit hi := by
  induction entries with
  | nil => exact fun h => h
  | cons entry entries ih =>
    intro s h
    obtain ⟨hentry, hmore⟩ := List.forall_mem_cons.mp hentries
    exact ih hmore (add_fit h hentry)

theorem eq_of_ite_error {α β : Type} {c : Prop} [Decidable c] {a a' : α} {b : β}
    (h : (if c then Except.error a else .ok b) = .error a') : a = a' := by
  split at h
  · cases h
    rfl
  · cases h

theorem ofItem_fit {root : Item} (h : root.Fits hi) {ds : List Diagnostic} (hread : ofItem root = .error ds) :
    ∀ d ∈ ds, d.Fits hi := by
  have hshape : ∀ d ∈ [(⟨.notSections, root.span⟩ : Diagnostic)], d.Fits hi := fits_of_shape h rfl
  cases h with
  | @map entries span hspan hkeys hvalues =>
    have hsections : (entries.foldl Sections.add {}).Fit hi :=
      foldl_add_fit (fun e he => ⟨hkeys e he, hvalues e he⟩) ⟨fun _ hp => absurd hp List.not_mem_nil,
        fun _ hr => absurd hr List.not_mem_nil, fun _ hd => absurd hd List.not_mem_nil⟩
    have hnames : ∀ n ∈ (entries.foldl Sections.add {}).parameters.map (·.name), n.span.stop ≤ hi := by
      intro n hn
      obtain ⟨p, hp, rfl⟩ := List.mem_map.mp hn
      exact hsections.parameters p hp
    unfold ofItem at hread
    obtain rfl := eq_of_ite_error hread
    refine List.forall_mem_append.mpr ⟨List.forall_mem_append.mpr ⟨hsections.faults, ?_⟩,
      shadowed_fit hnames hsections.references⟩
    split
    · exact List.forall_mem_singleton.mpr (.of_span (Nat.le_trans span.ordered hspan) rfl)
    · exact fun _ hd => absurd hd List.not_mem_nil
  | null | bool | number | text | seq =>
    cases hread
    exact hshape

end Document

/-! ## Labels -/

theorem Diagnostic.Ends.label {hi : Nat} {d : Diagnostic} (h : d.Ends hi) :
    ∀ l ∈ d.labels, l.span.stop ≤ hi ∨ d.fault = .flowColon ∧ l.span = .sized hi 1 := by
  intro l hl
  rcases List.mem_cons.mp hl with rfl | hl
  · rcases h with h | h
    · exact .inl h.span
    · exact .inr h
  · obtain ⟨e, he, rfl⟩ := Option.map_eq_some_iff.mp (Option.mem_toList.mp hl)
    rcases h with h | ⟨hfault, -⟩
    · exact .inl (h.elsewhere e he)
    · rw [hfault] at he
      cases he

/-- What is reported of a text lies in the text. -/
theorem Document.read_ends {text : String} {ds : List Diagnostic} (h : Document.read text = .error ds) :
    ∀ d ∈ ds, d.Ends (width text.toList) := by
  have hitem := Item.read_ends text.toList
  unfold Document.read at h
  cases hread : Item.read text.toList with
  | error faults =>
    rw [hread] at h hitem
    cases h
    exact hitem
  | ok root =>
    rw [hread] at h hitem
    exact fun d hd => .inl (Document.ofItem_fit hitem h d hd)

/-- Both ends of a range are between characters of a text. -/
def Span.Cuts (text : List Char) (s : Span) : Prop :=
  ∃ a b c, text = a ++ (b ++ c) ∧ s.start = width a ∧ s.stop = width a + width b

theorem Span.cuts_of_oneByte {text : List Char} (h : ∀ c ∈ text, c.utf8Size = 1) {s : Span} (hs : s.stop ≤ width text) :
    s.Cuts text := by
  have hordered := s.ordered
  have hsub {cs : List Char} (hcs : cs ⊆ text) : width cs = cs.length := Text.width_of_oneByte fun c hc => h c (hcs hc)
  have hrest : (text.drop s.start).take (s.stop - s.start) ⊆ text :=
    fun _ hc => List.mem_of_mem_drop (List.mem_of_mem_take hc)
  rw [Text.width_of_oneByte h] at hs
  refine ⟨text.take s.start, (text.drop s.start).take (s.stop - s.start),
    (text.drop s.start).drop (s.stop - s.start), by rw [List.take_append_drop, List.take_append_drop], ?_, ?_⟩
  · rw [hsub (List.take_subset _ _), List.length_take]
    omega
  · rw [hsub (List.take_subset _ _), hsub hrest, List.length_take, List.length_take, List.length_drop]
    omega

/-- Every label of a rejected text ends within the text, and where every character is one byte it
    can be cut from it; but not that of a colon missing at the end. -/
theorem Document.labels_within {text : String} {ds : List Diagnostic} (h : Document.read text = .error ds) :
    ∀ d ∈ ds, ∀ l ∈ d.labels,
      l.span.stop ≤ width text.toList ∧ ((∀ c ∈ text.toList, c.utf8Size = 1) → l.span.Cuts text.toList) ∨
        d.fault = .flowColon ∧ l.span = .sized (width text.toList) 1 := by
  intro d hd l hl
  rcases (Document.read_ends h d hd).label l hl with hstop | hcolon
  · exact .inl ⟨hstop, fun hbytes => Span.cuts_of_oneByte hbytes hstop⟩
  · exact .inr hcolon

/-- A key that is used twice. -/
theorem Document.labels_within_repeatedKey : ∃ ds, Document.read "a: ~\na: ~" = .error ds ∧
    ∀ d ∈ ds, ∀ l ∈ d.labels,
      l.span.stop ≤ width "a: ~\na: ~".toList ∧
          ((∀ c ∈ "a: ~\na: ~".toList, c.utf8Size = 1) → l.span.Cuts "a: ~\na: ~".toList) ∨
        d.fault = .flowColon ∧ l.span = .sized (width "a: ~\na: ~".toList) 1 := by
  have hread : Document.read "a: ~\na: ~" = .error [⟨.duplicateKey "a" (.sized 0 1), .sized 5 1⟩] := by cbv
  exact ⟨_, hread, Document.labels_within hread⟩

theorem Document.missing_colon_outside : ∃ d l, Document.read "sketch: \x7ba" = .error [d] ∧ l ∈ d.labels ∧
    ¬l.span.Cuts "sketch: \x7ba".toList := by
  have hread : Document.read "sketch: \x7ba" = .error [⟨.flowColon, .sized 10 1⟩] := by cbv
  refine ⟨_, _, hread, List.mem_cons_self, ?_⟩
  rintro ⟨a, b, c, htext, hstart, hstop⟩
  have hwidth := congrArg width htext
  have hlong : width "sketch: \x7ba".toList = 10 := by decide
  rw [hlong, Text.width_append, Text.width_append] at hwidth
  simp only [Span.sized] at hstart hstop
  omega

end Sketchwork
