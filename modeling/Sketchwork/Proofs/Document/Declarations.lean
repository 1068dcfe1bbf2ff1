/-
  Sketchwork.Proofs.Document.Declarations — what the readers of names, parameters and references report.

  Proved: a name is returned without its sigil or it is reported (`name?_cases`); parameters and
  references are read from every shape they may have and from no other
  (`readParameters_reads`, `readReferences_reads`).
-/
import Sketchwork.Proofs.Document.Reports

namespace Sketchwork

namespace Document

/-! ## Names -/

theorem not_isIdentifier_of_mem {c : Char} {word : List Char} (hc : c ∈ word) (hpart : Lexer.isNamePart c = false)
    (hstart : Lexer.isNameStart c = false) : isIdentifier word = false := by
  cases word with
  | nil => rfl
  | cons d ds =>
    rcases List.mem_cons.mp hc with rfl | hc
    · simp [isIdentifier, hstart]
    · have hall : ds.all Lexer.isNamePart = false := List.all_eq_false.mpr ⟨c, hc, by simp [hpart]⟩
      simp [isIdentifier, hall]

/-- A name is returned without its sigil, or it is reported and left out. -/
theorem name?_cases (kind : Declared) (raw : Spanned String) :
    (∃ n, name? kind raw = ⟨some n, []⟩ ∧ Declares raw.value.toList n.value.toList) ∨
      ∃ d, name? kind raw = ⟨none, [d]⟩ ∧ d.isError = true ∧ ¬IsName raw.value.toList := by
  unfold name?
  dsimp only
  split
  · rename_i rest hraw
    rw [String.toList_ofList]
    by_cases hident : isIdentifier rest = true
    · rw [if_pos hident]
      exact .inl ⟨_, rfl, by rw [String.toList_ofList]; exact ⟨hident, .inr hraw⟩⟩
    · rw [if_neg hident]
      refine .inr ⟨_, rfl, by cases kind <;> rfl, ?_⟩
      rintro ⟨word, hword, hbare | hsigil⟩
      · -- a bare word does not begin with the sigil
        rw [← hbare, hraw] at hword
        have hstart : Lexer.isNameStart '$' = false := by decide
        simp [isIdentifier, hstart] at hword
      · obtain rfl : rest = word := by
          rw [hraw] at hsigil
          exact (List.cons.inj hsigil).2
        exact hident hword
  · rename_i hraw
    by_cases hident : isIdentifier raw.value.toList = true
    · rw [if_pos hident]
      exact .inl ⟨raw, rfl, hident, .inl rfl⟩
    · rw [if_neg hident]
      refine .inr ⟨_, rfl, by cases kind <;> rfl, ?_⟩
      rintro ⟨word, hword, hbare | hsigil⟩
      · rw [hbare] at hident
        exact hident hword
      · exact hraw word hsigil

theorem name?_reads (kind : Declared) (raw : Spanned String) :
    (name? kind raw).Reads (IsName raw.value.toList) (Found fun n => Declares raw.value.toList n.value.toList) := by
  rcases name?_cases kind raw with ⟨n, hname, hdeclares⟩ | ⟨d, hname, hd, hnot⟩
  · rw [hname]
    exact .given ⟨_, hdeclares⟩ ⟨n, rfl, hdeclares⟩
  · rw [hname]
    exact .refused hd hnot

/-! ## Parameters -/

mutual

theorem holds_literal : ∀ item : Item, Literal.Holds item item.literal
  | .null span => .null span
  | .bool b span => .bool b span
  | .number x span => .number x span
  | .text s quoted span => .text s quoted span
  | .seq items span => .list span (holds_literals items)
  | .map entries span => .map span (holds_literalEntries entries).1 (holds_literalEntries entries).2

theorem holds_literals : ∀ items : List Item, List.Forall₂ Literal.Holds items (Item.literal.literals items)
  | [] => .nil
  | item :: items => .cons (holds_literal item) (holds_literals items)

theorem holds_literalEntries : ∀ entries : List Item.Entry,
    entries.map (·.1.value) = (Item.literal.literalEntries entries).map (·.1) ∧
      List.Forall₂ Literal.Holds (entries.map (·.2)) ((Item.literal.literalEntries entries).map (·.2))
  | [] => ⟨rfl, .nil⟩
  | (key, value) :: entries => by
    obtain ⟨hkeys, hvalues⟩ := holds_literalEntries entries
    exact ⟨by simp [Item.literal.literalEntries, hkeys], .cons (holds_literal value) hvalues⟩

end

theorem holds_defaultOf (item : Item) : Parameter.HoldsDefault item (defaultOf item) := by
  cases item with
  | map fields span =>
    cases hfind : fields.find? fun e => e.1.value == "default" with
    | none =>
      have hnone : defaultOf (.map fields span) = .null := by
        simp [defaultOf, Item.Entry.find?, hfind]
      rw [hnone]
      refine .missing span fun entry hentry hkey => ?_
      exact List.find?_eq_none.mp hfind entry hentry (beq_iff_eq.mpr hkey)
    | some entry =>
      have hsome : defaultOf (.map fields span) = entry.2.literal := by
        simp [defaultOf, Item.Entry.find?, hfind]
      rw [hsome]
      have hkey := List.find?_some hfind
      exact .defined span (List.mem_of_find?_eq_some hfind) (beq_iff_eq.mp hkey) (holds_literal _)
  | null span => exact .given nofun (holds_literal _)
  | bool b span => exact .given nofun (holds_literal _)
  | number x span => exact .given nofun (holds_literal _)
  | text s quoted span => exact .given nofun (holds_literal _)
  | seq items span => exact .given nofun (holds_literal _)

theorem parameterEntry_reads (entry : Item.Entry) :
    (parameterEntry entry).Reads (IsName entry.1.value.toList) (Found (Parameter.HoldsEntry entry)) := by
  refine (name?_reads .parameter entry.1).made rfl .rfl ?_
  rintro ⟨n, hn, hdeclares⟩
  exact ⟨⟨n, defaultOf entry.2⟩, by simp [parameterEntry, hn], hdeclares, holds_defaultOf entry.2⟩

theorem isParameter_text_iff {s : String} {quoted : Bool} {span : Span} :
    IsName s.toList ↔ IsParameter (.text s quoted span) := by
  constructor
  · exact .name quoted span
  · intro h
    cases h with
    | name _ _ h => exact h

theorem isParameter_entry_iff {entry : Item.Entry} {span : Span} :
    IsName entry.1.value.toList ↔ IsParameter (.map [entry] span) := by
  constructor
  · exact .entry span
  · intro h
    cases h with
    | entry _ h => exact h

theorem parameterItem_reads (item : Item) :
    (parameterItem item).Reads (IsParameter item) (Found (Parameter.Holds item)) := by
  unfold parameterItem
  split
  · rename_i s quoted span
    refine (name?_reads .parameter ⟨s, span⟩).made rfl isParameter_text_iff ?_
    rintro ⟨n, hn, hdeclares⟩
    exact ⟨⟨n, .null⟩, by simp [hn], .name quoted span hdeclares rfl⟩
  · rename_i htext
    split
    · rename_i entry hentry
      unfold Item.singleEntry? at hentry
      split at hentry
      · rename_i span
        cases hentry
        refine (parameterEntry_reads entry).made rfl isParameter_entry_iff ?_
        rintro ⟨p, hp, hholds⟩
        exact ⟨p, hp, .entry span hholds⟩
      · cases hentry
    · rename_i hentry
      refine .refused rfl ?_
      intro h
      cases h with
      | name quoted span _ => exact htext _ quoted span rfl
      | entry span _ => cases hentry

theorem readParameters_reads (item : Item) :
    (readParameters item).Reads (IsParameters item) (Parameter.AllHold item) := by
  cases item with
  | null span => exact .given (.null span) (.null span)
  | seq items span =>
    refine (collect_reads parameterItem_reads items).made rfl ⟨.list span, ?_⟩ (.list span)
    intro h
    cases h with
    | list _ h => exact h
  | map entries span =>
    refine (collect_reads parameterEntry_reads entries).made rfl ⟨.map span, ?_⟩ (.map span)
    intro h
    cases h with
    | map _ h => exact h
  | bool b span => exact .refused rfl nofun
  | number x span => exact .refused rfl nofun
  | text s quoted span => exact .refused rfl nofun

/-! ## References -/

theorem not_isName_of_suffix (bare : List Char) : ¬IsName (bare ++ ":sketch".toList) := by
  rintro ⟨word, hident, hwritten⟩
  have hmem : ':' ∈ word := by
    have hcolon : ':' ∈ bare ++ ":sketch".toList := List.mem_append_right _ (by decide)
    rcases hwritten with hbare | hsigil
    · rwa [hbare] at hcolon
    · rw [hsigil] at hcolon
      rcases List.mem_cons.mp hcolon with h | h
      · exact absurd h (by decide)
      · exact h
  rw [not_isIdentifier_of_mem hmem (by decide) (by decide)] at hident
  cases hident

theorem isReference_sketch_iff {key : Spanned String} {value : Item} {bare : List Char}
    (hkey : key.value.toList = bare ++ ":sketch".toList) : IsName bare ∧ IsChain value ↔ IsReference (key, value) := by
  constructor
  · rintro ⟨hname, hchain⟩
    exact .sketch hkey hname hchain
  · intro h
    cases h with
    | plain hname _ =>
      rw [hkey] at hname
      exact absurd hname (not_isName_of_suffix bare)
    | sketch hkey' hname hchain =>
      obtain rfl := List.append_cancel_right (hkey'.symm.trans hkey)
      exact ⟨hname, hchain⟩

theorem isReference_plain_iff {key : Spanned String} {value : Item}
    (hkey : ∀ bare, key.value.toList ≠ bare ++ ":sketch".toList) :
    IsName key.value.toList ∧ IsArgument value ↔ IsReference (key, value) := by
  constructor
  · rintro ⟨hname, harg⟩
    exact .plain hname harg
  · intro h
    cases h with
    | plain hname harg => exact ⟨hname, harg⟩
    | sketch hkey' _ _ => exact absurd hkey' (hkey _)

theorem referenceEntry_reads (entry : Item.Entry) :
    (referenceEntry entry).Reads (IsReference entry) (Found (Reference.Holds entry)) := by
  obtain ⟨key, value⟩ := entry
  unfold referenceEntry
  dsimp only
  by_cases hsuffix : sketchSuffix.isSuffixOf key.value.toList = true
  · rw [if_pos hsuffix]
    obtain ⟨bare, hkey⟩ := List.isSuffixOf_iff_suffix.mp hsuffix
    have htake : key.value.toList.take (key.value.toList.length - sketchSuffix.length) = bare := by
      rw [← hkey, List.length_append, Nat.add_sub_cancel, List.take_left]
    rw [htake]
    generalize Span.between key.span.start (key.span.stop - sketchSuffix.length) = span
    rcases name?_cases .reference ⟨String.ofList bare, span⟩ with ⟨n, hname, hdeclares⟩ | ⟨d, hname, hd, hnot⟩
    · rw [hname]
      rw [String.toList_ofList] at hdeclares
      have hshape : IsChain value ↔ IsReference (key, value) := by
        rw [← isReference_sketch_iff hkey.symm]
        exact ⟨fun h => ⟨⟨_, hdeclares⟩, h⟩, And.right⟩
      exact (readChain_reads value).made rfl hshape fun h => ⟨_, rfl, .sketch hkey.symm hdeclares rfl h⟩
    · rw [hname]
      rw [String.toList_ofList] at hnot
      exact .refused hd fun h => hnot ((isReference_sketch_iff hkey.symm).mpr h).1
  · rw [if_neg hsuffix]
    have hkey : ∀ bare, key.value.toList ≠ bare ++ ":sketch".toList :=
      fun bare h => hsuffix (List.isSuffixOf_iff_suffix.mpr ⟨bare, h.symm⟩)
    rcases name?_cases .reference key with ⟨n, hname, hdeclares⟩ | ⟨d, hname, hd, hnot⟩
    · rw [hname]
      have hshape : IsArgument value ↔ IsReference (key, value) := by
        rw [← isReference_plain_iff hkey]
        exact ⟨fun h => ⟨⟨_, hdeclares⟩, h⟩, And.right⟩
      exact (arg_reads value).made rfl hshape fun h => ⟨_, rfl, .plain hdeclares rfl h⟩
    · rw [hname]
      exact .refused hd fun h => hnot ((isReference_plain_iff hkey).mpr h).1

theorem referenceItem_reads (item : Item) : (referenceItem item).Reads
    (∃ entry s, item = .map [entry] s ∧ IsReference entry)
    (Found fun r => ∃ entry s, item = .map [entry] s ∧ Reference.Holds entry r) := by
  unfold referenceItem Item.singleEntry?
  split
  · rename_i entry hentry
    split at hentry
    · rename_i span
      cases hentry
      refine (referenceEntry_reads entry).made rfl ⟨fun h => ⟨entry, span, rfl, h⟩, ?_⟩ ?_
      · rintro ⟨_, _, heq, h⟩
        cases heq
        exact h
      · rintro ⟨r, hr, hholds⟩
        exact ⟨r, hr, entry, span, rfl, hholds⟩
    · cases hentry
  · rename_i hentry
    refine .refused rfl ?_
    rintro ⟨entry, span, rfl, _⟩
    cases hentry

theorem readReferences_reads (item : Item) :
    (readReferences item).Reads (IsReferences item) (Reference.AllHold item) := by
  cases item with
  | null span => exact .given (.null span) (.null span)
  | seq items span =>
    refine (collect_reads referenceItem_reads items).made rfl ⟨.list span, ?_⟩ (.list span)
    intro h
    cases h with
    | list _ h => exact h
  | map entries span =>
    refine (collect_reads referenceEntry_reads entries).made rfl ⟨.map span, ?_⟩ (.map span)
    intro h
    cases h with
    | map _ h => exact h
  | bool b span => exact .refused rfl nofun
  | number x span => exact .refused rfl nofun
  | text s quoted span => exact .refused rfl nofun

/-- A name declared again is only warned of. -/
theorem isError_of_mem_shadowed {rs : List Reference} : ∀ {earlier : List (Spanned String)} {d : Diagnostic},
    d ∈ shadowed earlier rs → d.isError = false := by
  induction rs with
  | nil => nofun
  | cons r rs ih =>
    intro earlier d hd
    rcases List.mem_append.mp hd with hd | hd
    · obtain ⟨first, _, rfl⟩ := Option.map_eq_some_iff.mp (Option.mem_toList.mp hd)
      rfl
    · exact ih hd

end Document

end Sketchwork
