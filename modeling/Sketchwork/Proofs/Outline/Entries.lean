/-
  Sketchwork.Proofs.Outline.Entries — documents of one entry with its value beside the key.

  A key passes the search for comments and a colon ends it, so the value alone decides: what is
  left of it before a comment is read as a line of its own.

  Proved: the entry is read as its key with what is read of the value (`read_entryLine`), and it is
  rejected for the fault in the value alone (`read_entryLine_error`).
-/
import Sketchwork.Proofs.Outline.Blocks

namespace Sketchwork.Layout

open Text (isBlank width)

/-- A key, some spaces and a value. -/
def entryLine (key : Key) (gap : Nat) (value : List Char) : List Char :=
  key.text ++ ':' :: (spaces (gap + 1) ++ value)

/-- The search for comments leaves a value whole. -/
def Uncut (value : List Char) : Prop :=
  Line.withoutComment none ' ' value = value

variable (key : Key) (gap : Nat) {value kept : List Char} {c : Char}

/-! ## The line -/

theorem runs_keyGap : Runs ' ' (key.text ++ ':' :: spaces (gap + 1)) ' ' := by
  obtain ⟨q, hq⟩ := key.runs ' '
  exact hq.trans (.cons (by decide) q (.spaces_succ gap ':'))

theorem entryLine_eq_append (value : List Char) :
    entryLine key gap value = (key.text ++ ':' :: spaces (gap + 1)) ++ value := by
  rw [List.append_assoc]
  rfl

theorem withoutComment_entryLine (value : List Char) :
    Line.withoutComment none ' ' (entryLine key gap value) = entryLine key gap (Line.withoutComment none ' ' value) := by
  rw [entryLine_eq_append, (runs_keyGap key gap).keeps, ← entryLine_eq_append]

theorem cons_trimEnd (hc : isBlank c = false) (hlast : ∀ x ∈ (c :: kept).getLast?, isBlank x = false) :
    c :: Text.trimEnd kept = c :: kept := by
  rw [← List.nil_append (c :: Text.trimEnd kept), ← trimEnd_append_cons [] hc, List.nil_append, trimEnd_eq_self hlast]

/-- The line of an entry, with the value before its comment. -/
theorem ofDocument_entryLine (hbreak : '\n' ∉ value) (hlast : ∀ x ∈ value.getLast?, isBlank x = false)
    (hc : isBlank c = false) (hkept : Line.withoutComment none ' ' value = c :: kept) :
    Line.ofDocument (entryLine key gap value) = ([⟨0, entryLine key gap (c :: Text.trimEnd kept), 0⟩], []) := by
  have hnewline : '\n' ∉ entryLine key gap value := by
    rw [entryLine_eq_append, List.mem_append, not_or]
    exact ⟨(runs_keyGap key gap).newline, hbreak⟩
  have hne : value ≠ [] := by
    rintro rfl
    cases hkept
  have hsolid (t : List Char) : Solid (entryLine key gap t) := key.solid_append _
  have hend : Text.dropEndWhile isBreak (entryLine key gap value) = spaces 0 ++ entryLine key gap value := by
    have hbreaks : ∀ x ∈ (entryLine key gap value).getLast?, isBreak x = false := by
      rw [entryLine_eq_append, List.getLast?_append_of_ne_nil _ hne]
      exact fun x hx => isBreak_eq_false (hlast x hx)
    simpa [Text.dropEndWhile, spaces] using dropEndWhile_append hbreaks []
  have htrim : Text.trimEnd (entryLine key gap (c :: kept)) = entryLine key gap (c :: Text.trimEnd kept) := by
    rw [entryLine_eq_append, trimEnd_append_cons _ hc, ← entryLine_eq_append]
  have hmarker : Line.isMarker (entryLine key gap (c :: Text.trimEnd kept)) = false := key.isMarker_append _
  have hline : Line.ofText 0 (entryLine key gap value) = (some ⟨0, entryLine key gap (c :: Text.trimEnd kept), 0⟩, none) := by
    rw [ofText_of_dropEnd (hsolid value) hend, withoutComment_entryLine, hkept]
    dsimp only
    rw [htrim, hmarker]
    simp [entryLine]
  rw [Line.ofDocument, pieces_of_not_mem hnewline (by simp [entryLine]), Line.ofPieces, hline]
  rfl

/-! ## The value -/

theorem lineValue_of_ok {start indent : Nat} {item : Item} (h : Flow.line ⟨start, value⟩ = .ok item) :
    Block.lineValue value start indent [] = ⟨item, [], Flow.repeatedKeys item⟩ := by
  have hnone (depth stop : Nat) : Block.continuation indent depth stop [] = ([], []) := rfl
  unfold Block.lineValue
  simp only [hnone, ite_self, List.append_nil, h]

theorem lineValue_of_error {start indent : Nat} {fault : Diagnostic} (h : Flow.line ⟨start, value⟩ = .error fault) :
    Block.lineValue value start indent [] = ⟨.null (.point start), [], [fault]⟩ := by
  have hnone (depth stop : Nat) : Block.continuation indent depth stop [] = ([], []) := rfl
  unfold Block.lineValue
  simp only [hnone, ite_self, List.append_nil, h]

/-- Where the value of an entry begins. -/
def valueStart : Nat :=
  width (key.text ++ ':' :: spaces (gap + 1))

theorem stop_entryLine (value : List Char) :
    Line.stop ⟨0, entryLine key gap value, 0⟩ - width value = valueStart key gap := by
  have hstop : Line.stop ⟨0, entryLine key gap value, 0⟩ = valueStart key gap + width value := by
    rw [Line.stop, Nat.zero_add, entryLine_eq_append, Text.width_append, valueStart]
  rw [hstop, Nat.add_sub_cancel]

/-- The line of an entry is a map with what the value is read as. -/
theorem ofLines_entryLine (hvalue : Solid value) (hne : value ≠ []) : ∃ keySpan, ∀ {item : Item} {faults : List Diagnostic},
    Block.lineValue value (valueStart key gap) 0 [] = ⟨item, [], faults⟩ →
    ∃ span, Block.ofLines [⟨0, entryLine key gap value, 0⟩] = (.map [(⟨key.value, keySpan⟩, item)] span, faults) := by
  obtain ⟨keySpan, hkeyed⟩ := key.keyed?_append (l := ⟨0, entryLine key gap value, 0⟩) rfl
    (show Line.splitAtColon (':' :: (spaces (gap + 1) ++ value)) = some ([], spaces gap ++ value) from rfl)
  rw [trimStart_spaces gap hvalue, stop_entryLine] at hkeyed
  refine ⟨keySpan, fun {item faults} hvalue => ?_⟩
  obtain ⟨n, hn⟩ : ∃ n, Block.depthBound [⟨0, entryLine key gap value, 0⟩] = n + 3 :=
    ⟨Block.depthBound [⟨0, entryLine key gap value, 0⟩] - 3, by rw [depthBound_eq]; omega⟩
  have hitem : entryItem n 0 ⟨⟨key.value, keySpan⟩, value, valueStart key gap⟩ [] = ⟨item, [], faults⟩ := by
    rw [entryItem, if_pos (by simp [hne]), hvalue]
  have hentries : Block.mappingEntries (n + 1) 0 [] [⟨0, entryLine key gap value, 0⟩] =
      ⟨[(⟨key.value, keySpan⟩, item)], [], faults⟩ := by
    rw [mappingEntries_entry rfl hkeyed, hitem]
    dsimp only
    have hstops : Stops 0 [] := fun l hl => absurd hl (Option.not_mem_none l)
    rw [Block.skipDeeper, mappingEntries_of_stops hstops, Flow.duplicate?_eq_none (by simp)]
    simp
  have hsequence : Line.isSequenceEntry ⟨0, entryLine key gap value, 0⟩ = false := key.isSequenceEntry_append ..
  have hblock : ∃ span, Block.block (n + 3) ⟨0, entryLine key gap value, 0⟩ [] =
      ⟨.map [(⟨key.value, keySpan⟩, item)] span, [], faults⟩ := by
    rw [Block.block, if_neg (by simp [hsequence]), if_pos (by rw [hkeyed]; rfl), Block.mapping, hentries]
    exact ⟨_, rfl⟩
  obtain ⟨span, hblock⟩ := hblock
  refine ⟨span, ?_⟩
  rw [Block.ofLines, hn, hblock]
  simp

/-! ## The entry -/

theorem line_of_node?_error {start : Nat} {fault : Diagnostic}
    (h : Flow.node? (Flow.depthBound value) .block ⟨start, value⟩ = .error fault) : Flow.line ⟨start, value⟩ = .error fault := by
  unfold Flow.line
  simp only [h, bind, Except.bind]

section Read

variable (hbreak : '\n' ∉ value) (hlast : ∀ x ∈ value.getLast?, isBlank x = false) (hc : isBlank c = false)
  (hkept : Line.withoutComment none ' ' value = c :: kept)
include hbreak hlast hc hkept

/-- An entry is read as its key with the value that stands before its comment. -/
theorem read_entryLine {l : Literal} (hd : l.Distinct)
    (h : ∀ start, ∃ item, Flow.line ⟨start, c :: Text.trimEnd kept⟩ = .ok item ∧ item.literal = l) :
    (Item.read (entryLine key gap value)).map Item.literal = .ok (.map [(key.value, l)]) := by
  have hsolid : Solid (c :: Text.trimEnd kept) := .cons hc
  obtain ⟨keySpan, hlines⟩ := ofLines_entryLine key gap hsolid (List.cons_ne_nil _ _)
  obtain ⟨item, hline, rfl⟩ := h (valueStart key gap)
  obtain ⟨span, hroot⟩ := hlines (lineValue_of_ok hline)
  rw [Flow.repeatedKeys_eq_nil item hd] at hroot
  rw [Item.read, ofDocument_entryLine key gap hbreak hlast hc hkept]
  dsimp only
  rw [hroot]
  rfl

/-- An entry is rejected for what is wrong with its value, and for nothing else. -/
theorem read_entryLine_error {fault : Fault}
    (h : ∀ start, ∃ span, Flow.line ⟨start, c :: Text.trimEnd kept⟩ = .error ⟨fault, span⟩) :
    ∃ span, Item.read (entryLine key gap value) = .error [⟨fault, span⟩] := by
  have hsolid : Solid (c :: Text.trimEnd kept) := .cons hc
  obtain ⟨keySpan, hlines⟩ := ofLines_entryLine key gap hsolid (List.cons_ne_nil _ _)
  obtain ⟨faultSpan, hline⟩ := h (valueStart key gap)
  obtain ⟨span, hroot⟩ := hlines (lineValue_of_error hline)
  refine ⟨faultSpan, ?_⟩
  rw [Item.read, ofDocument_entryLine key gap hbreak hlast hc hkept]
  dsimp only
  rw [hroot]
  rfl

end Read

/-- An entry whose value is left whole is read as what the value is. -/
theorem read_entryLine_of_uncut (hbreak : '\n' ∉ value) (hlast : ∀ x ∈ value.getLast?, isBlank x = false)
    (hsolid : Solid value) (hne : value ≠ []) (huncut : Uncut value) {l : Literal} (hd : l.Distinct)
    (h : ∀ start, ∃ item, Flow.line ⟨start, value⟩ = .ok item ∧ item.literal = l) :
    (Item.read (entryLine key gap value)).map Item.literal = .ok (.map [(key.value, l)]) := by
  obtain ⟨c, kept, rfl⟩ := List.exists_cons_of_ne_nil hne
  have hc : isBlank c = false := hsolid c rfl
  rw [← cons_trimEnd hc hlast] at h
  exact read_entryLine key gap hbreak hlast hc huncut hd h

end Sketchwork.Layout
