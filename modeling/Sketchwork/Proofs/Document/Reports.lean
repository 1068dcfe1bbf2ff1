/-
  Sketchwork.Proofs.Document.Reports — what a reader of part of a document reports and returns.

  A reader goes on after a fault with a part left out, so of every reader two things are
  needed together (`Part.Reads`): nothing is reported exactly when its tree has the shape, and
  what is reported is an error; and when nothing is reported, what it returns holds its tree.

  Proved: this is so for arguments and for chains, at any depth (`arg_reads`, `steps_reads`).
-/
import Mathlib.Data.List.TakeWhile
import Sketchwork.Proofs.Document.Shape
import Sketchwork.Proofs.Expr.Faults

namespace Sketchwork

namespace Document

/-! ## What readers report -/

/-- What a reader reports of a tree, and what it returns where it reports nothing. -/
structure Part.Reads {α : Type} (shape : Prop) (held : α → Prop) (p : Part α) : Prop where
  clean : p.faults = [] ↔ shape
  errors : ∀ d ∈ p.faults, d.isError = true
  held : p.faults = [] → held p.value

namespace Part.Reads

variable {α β γ : Type} {a b c : Prop} {p : Part α} {q : Part β} {r : Part γ}
variable {ha : α → Prop} {hb : β → Prop} {hc : γ → Prop}

theorem given {value : α} (hshape : a) (hvalue : ha value) : Reads a ha ⟨value, []⟩ :=
  ⟨⟨fun _ => hshape, fun _ => rfl⟩, nofun, fun _ => hvalue⟩

theorem refused {value : α} {d : Diagnostic} (hd : d.isError = true) (hshape : ¬a) : Reads a ha ⟨value, [d]⟩ := by
  refine ⟨⟨nofun, fun h => absurd h hshape⟩, ?_, nofun⟩
  intro d' hd'
  obtain rfl := List.mem_singleton.mp hd'
  exact hd

/-- A reader that reports what another one does. -/
theorem made (h : Reads a ha p) (hfaults : q.faults = p.faults) (hshape : a ↔ b) (hvalue : ha p.value → hb q.value) :
    Reads b hb q := by
  refine ⟨?_, ?_, ?_⟩
  · rw [hfaults, h.clean, hshape]
  · rw [hfaults]
    exact h.errors
  · intro hnil
    rw [hfaults] at hnil
    exact hvalue (h.held hnil)

/-- A reader that reports what two others do. -/
theorem both (hp : Reads a ha p) (hq : Reads b hb q) (hfaults : r.faults = p.faults ++ q.faults) (hshape : a ∧ b ↔ c)
    (hvalue : ha p.value → hb q.value → hc r.value) : Reads c hc r := by
  refine ⟨?_, ?_, ?_⟩
  · rw [hfaults, List.append_eq_nil_iff, hp.clean, hq.clean, hshape]
  · intro d hd
    rw [hfaults] at hd
    rcases List.mem_append.mp hd with hd | hd
    · exact hp.errors d hd
    · exact hq.errors d hd
  · intro hnil
    rw [hfaults] at hnil
    obtain ⟨hpn, hqn⟩ := List.append_eq_nil_iff.mp hnil
    exact hvalue (hp.held hpn) (hq.held hqn)

end Part.Reads

/-- A part that may be missing is there where nothing is reported. -/
def Found {α : Type} (held : α → Prop) (value : Option α) : Prop :=
  ∃ v, value = some v ∧ held v

theorem collect_reads {α β : Type} {f : α → Part (Option β)} {shape : α → Prop} {held : α → β → Prop}
    (h : ∀ x, (f x).Reads (shape x) (Found (held x))) (xs : List α) :
    (collect f xs).Reads (∀ x ∈ xs, shape x) (List.Forall₂ held xs) := by
  induction xs with
  | nil => exact .given nofun .nil
  | cons x xs ih =>
    refine (h x).both ih (by simp [collect]) List.forall_mem_cons.symm ?_
    rintro ⟨v, hv, hheld⟩ hmore
    have hvalue : (collect f (x :: xs)).value = v :: (collect f xs).value := by
      simp [collect, hv]
    rw [hvalue]
    exact .cons hheld hmore

/-! ## Arguments -/

theorem isEmpty_trim_iff (s : String) : (Text.trim s.toList).isEmpty = true ↔ IsBlank s := by
  unfold IsBlank Text.trim Text.trimEnd Text.dropEndWhile Text.trimStart
  rw [List.isEmpty_iff, List.reverse_eq_nil_iff, List.dropWhile_eq_nil_iff]
  constructor
  · intro h c hc
    by_contra hb
    have hne : s.toList.dropWhile Text.isBlank ≠ [] := fun hnil => hb (List.dropWhile_eq_nil_iff.mp hnil c hc)
    -- the first character left is no blank, but it is one of those that were all dropped
    have hhead := List.head_dropWhile_not Text.isBlank hne
    rw [h _ (List.mem_reverse.mpr (List.head_mem hne))] at hhead
    cases hhead
  · intro h c hc
    exact h c ((List.dropWhile_suffix _).subset (List.mem_reverse.mp hc))

theorem argOfText_reads (s : String) (quoted : Bool) (span : Span) :
    (argOfText s (.text s quoted span)).Reads (IsArgument (.text s quoted span)) (Arg.Holds (.text s quoted span)) := by
  unfold argOfText
  split
  · rename_i hblank
    have h := (isEmpty_trim_iff s).mp hblank
    exact .given (.blank quoted span h) (.blank quoted span h)
  · rename_i hblank
    have hne : s.toList ≠ [] := by
      intro hnil
      rw [hnil] at hblank
      exact hblank rfl
    split
    · rename_i e he
      exact .given (.expression he) (.expression he)
    · rename_i faults he
      obtain ⟨hfaults, hwithin⟩ := Expr.read_faults hne he
      refine ⟨⟨fun hnil => absurd hnil hfaults, ?_⟩, fun d hd => (hwithin d hd).isError,
        fun hnil => absurd hnil hfaults⟩
      intro harg
      cases harg with
      | blank _ _ h => exact absurd ((isEmpty_trim_iff s).mpr h) hblank
      | expression h =>
        rw [he] at h
        cases h

theorem isArgument_seq_iff {items : List Item} {span : Span} :
    (∀ item ∈ items, IsArgument item) ↔ IsArgument (.seq items span) := by
  constructor
  · exact .list span
  · intro h
    cases h with
    | list _ h => exact h

theorem isArgument_map_iff {entries : List Item.Entry} {span : Span} :
    (∀ entry ∈ entries, IsArgument entry.2) ↔ IsArgument (.map entries span) := by
  constructor
  · exact .map span
  · intro h
    cases h with
    | map _ h => exact h

theorem forall_mem_values_cons {p : Item → Prop} {key : Spanned String} {value : Item} {entries : List Item.Entry} :
    (∀ entry ∈ (key, value) :: entries, p entry.2) ↔ p value ∧ ∀ entry ∈ entries, p entry.2 :=
  List.forall_mem_cons

mutual

theorem arg_reads : ∀ item : Item, (arg item).Reads (IsArgument item) (Arg.Holds item)
  | .null span => .given (.null span) (.null span)
  | .bool b span => .given (.bool b span) (.bool b span)
  | .number x span => .given (.number x span) (.number x span)
  | .text s quoted span => argOfText_reads s quoted span
  | .seq items span => by
    rw [arg]
    exact (args_reads items).made rfl isArgument_seq_iff (.list span)
  | .map entries span => by
    rw [arg]
    exact (argEntries_reads entries).made rfl isArgument_map_iff fun h => .map span h.1 h.2

theorem args_reads : ∀ items : List Item,
    (args items).Reads (∀ item ∈ items, IsArgument item) (List.Forall₂ Arg.Holds items)
  | [] => .given nofun .nil
  | item :: items => by
    rw [args]
    exact (arg_reads item).both (args_reads items) rfl List.forall_mem_cons.symm .cons

theorem argEntries_reads : ∀ entries : List Item.Entry,
    (argEntries entries).Reads (∀ entry ∈ entries, IsArgument entry.2)
    fun parts => entries.map (·.1.value) = parts.map (·.1) ∧
      List.Forall₂ Arg.Holds (entries.map (·.2)) (parts.map (·.2))
  | [] => .given nofun ⟨rfl, .nil⟩
  | (key, value) :: entries => by
    rw [argEntries]
    refine (arg_reads value).both (argEntries_reads entries) rfl forall_mem_values_cons.symm ?_
    rintro hv ⟨hkeys, hvalues⟩
    exact ⟨by simp [hkeys], .cons hv hvalues⟩

end

theorem stepArgs_reads (item : Item) : (stepArgs item).Reads (IsArgument item) (Step.HoldsArgs item) := by
  have one {item : Item} (hnull : ∀ span, item ≠ .null span) (hlist : ∀ items span, item ≠ .seq items span) :
      (⟨[(arg item).value], (arg item).faults⟩ : Part (List Arg)).Reads (IsArgument item) (Step.HoldsArgs item) :=
    (arg_reads item).made rfl .rfl (.one hnull hlist)
  cases item with
  | null span => exact .given (.null span) (.null span)
  | seq items span => exact (args_reads items).made rfl isArgument_seq_iff (.list span)
  | bool b span => exact one nofun nofun
  | number x span => exact one nofun nofun
  | text s quoted span => exact one nofun nofun
  | map entries span => exact one nofun nofun

/-! ## Chains -/

theorem isChain_seq_iff {items : List Item} {span : Span} :
    (∀ item ∈ items, IsStep item) ↔ IsChain (.seq items span) := by
  constructor
  · exact .steps span
  · intro h
    cases h with
    | steps _ h => exact h

theorem isStep_nested_iff {key : Spanned String} {value : Item} {span : Span} (hkey : key.value = "sketch") :
    IsChain value ↔ IsStep (.map [(key, value)] span) := by
  constructor
  · exact .nested span hkey
  · intro h
    cases h with
    | nested _ _ h => exact h
    | call _ hne _ => exact absurd hkey hne

theorem isStep_call_iff {key : Spanned String} {value : Item} {span : Span} (hkey : key.value ≠ "sketch") :
    IsArgument value ↔ IsStep (.map [(key, value)] span) := by
  constructor
  · exact .call span hkey
  · intro h
    cases h with
    | nested _ heq _ => exact absurd heq hkey
    | call _ _ h => exact h

mutual

theorem steps_reads : ∀ item : Item, (steps item).Reads (IsChain item) (Step.AllHold item)
  | .null span => by
    rw [steps]
    exact .given (.null span) (.null span)
  | .seq items span => by
    rw [steps]
    exact (stepItems_reads items).made rfl isChain_seq_iff (.steps span)
  | .bool .. | .number .. | .text .. | .map .. => by
    rw [steps]
    · exact .refused rfl nofun
    · nofun
    · nofun

theorem stepItems_reads : ∀ items : List Item,
    (stepItems items).Reads (∀ item ∈ items, IsStep item) (List.Forall₂ Step.Holds items)
  | [] => by
    rw [stepItems]
    exact .given nofun .nil
  | item :: items => by
    rw [stepItems]
    refine (step?_reads item).both (stepItems_reads items) rfl List.forall_mem_cons.symm ?_
    rintro ⟨first, hvalue, hfirst⟩ hmore
    rw [hvalue]
    exact .cons hfirst hmore

theorem step?_reads : ∀ item : Item, (step? item).Reads (IsStep item) (Found (Step.Holds item))
  | .map [(key, value)] span => by
    rw [step?]
    by_cases hkey : key.value = "sketch"
    · have hbeq : (key.value == nestedStep) = true := beq_iff_eq.mpr hkey
      rw [if_pos hbeq]
      exact (steps_reads value).made rfl (isStep_nested_iff hkey) fun h => ⟨_, rfl, .nested span hkey h⟩
    · have hbeq : ¬(key.value == nestedStep) = true := fun h => hkey (beq_iff_eq.mp h)
      rw [if_neg hbeq]
      exact (stepArgs_reads value).made rfl (isStep_call_iff hkey) fun h => ⟨_, rfl, .call span hkey h⟩
  | .map [] _ | .map (_ :: _ :: _) _ | .null _ | .bool .. | .number .. | .text .. | .seq .. => by
    rw [step?]
    · exact .refused rfl nofun
    · nofun

end

theorem readChain_reads (item : Item) : (readChain item).Reads (IsChain item) (Step.AllHold item ·.steps) :=
  (steps_reads item).made rfl .rfl id

end Document

end Sketchwork
