/-
  Sketchwork.Proofs.Outline.Extents — a document's tree, and what is reported of it, lie in the text.

  The lines of a document are in order and end with it (`Line.From`). When a collection goes
  on over further lines the gaps between them are filled, so its text ends where the last of
  them does. Every reader of blocks takes lines from the front and leaves the others, and each
  value it returns ends by where the lines do.

  Proved: a tree that is read ends by the end of the text with all its parts, and so does what is
  reported of a text that has none, but for a missing colon (`read_ends`).
-/
import Sketchwork.Proofs.Outline.Blocks
import Sketchwork.Proofs.Outline.Ends

namespace Sketchwork

open Text (width)

/-! ## Lines in order -/

namespace Line

/-- Lines from `lo` on and by `hi`, one behind the other, with something on each. -/
def From (lo hi : Nat) : List Line → Prop
  | [] => lo ≤ hi
  | l :: ls => lo ≤ l.start ∧ l.text ≠ [] ∧ From l.stop hi ls

namespace From

variable {lo lo' hi : Nat} {l : Line} {ls : List Line}

theorem le (h : From lo hi ls) : lo ≤ hi := by
  induction ls generalizing lo with
  | nil => exact h
  | cons l ls ih =>
    have hstop : l.stop ≤ hi := ih h.2.2
    exact Nat.le_trans h.1 (Nat.le_trans (Nat.le_add_right ..) hstop)

theorem mono (h : From lo hi ls) (hlo : lo' ≤ lo) : From lo' hi ls := by
  cases ls with
  | nil => exact Nat.le_trans hlo h
  | cons l ls => exact ⟨Nat.le_trans hlo h.1, h.2⟩

theorem zero (h : From lo hi ls) : From 0 hi ls :=
  h.mono (Nat.zero_le _)

theorem tail (h : From lo hi (l :: ls)) : From 0 hi ls :=
  h.2.2.zero

theorem stop (h : From lo hi (l :: ls)) : l.stop ≤ hi :=
  h.2.2.le

theorem start_lt (h : From lo hi (l :: ls)) : l.start + 1 ≤ hi :=
  Place.pos_lt (p := ⟨l.start, l.text⟩) rfl h.2.1 |>.trans h.stop

theorem dropWhile (h : From 0 hi ls) (p : Line → Bool) : From 0 hi (ls.dropWhile p) := by
  induction ls with
  | nil => exact h
  | cons l ls ih =>
    rw [List.dropWhile_cons]
    split
    · exact ih h.tail
    · exact h

end From

end Line

namespace Block

variable {hi : Nat}

/-- What was read is good, the lines left are of the same text, and what is reported ends by then. -/
structure Found.Ends {α : Type} (hi : Nat) (good : α → Prop) (found : Found α) : Prop where
  value : good found.value
  rest : Line.From 0 hi found.rest
  faults : ∀ d ∈ found.faults, d.Ends hi

/-! ## Values on a line -/

/-- A line is left, or it is taken with the gap in front of it. -/
theorem continuation_cases (indent depth stop : Nat) (l : Line) (ls : List Line) :
    continuation indent depth stop (l :: ls) = ([], l :: ls) ∨
      continuation indent depth stop (l :: ls) =
        let more := continuation indent (Flow.depthAfter depth none ' ' l.text) l.stop ls
        (List.replicate (l.start - stop) ' ' ++ l.text ++ more.1, more.2) := by
  rw [continuation]
  dsimp only
  generalize (depth != 0 && _) = taken
  cases taken with
  | true => exact .inr rfl
  | false => exact .inl rfl

/-- The lines that a collection goes on over are taken from the front, and its text ends where
    the last of them does. -/
theorem continuation_from (indent : Nat) {lines : List Line} {depth stop : Nat} (h : Line.From stop hi lines) :
    Line.From (stop + width (continuation indent depth stop lines).1) hi (continuation indent depth stop lines).2 := by
  induction lines generalizing depth stop with
  | nil => exact h
  | cons l ls ih =>
    rcases continuation_cases indent depth stop l ls with hleft | htaken
    · rw [hleft]
      exact h
    · have hstart := h.1
      have hstop (n : Nat) : stop + (l.start - stop + width l.text + n) = l.stop + n := by
        rw [Line.stop]
        omega
      rw [htaken]
      dsimp only
      rw [Text.width_append, Text.width_append, Text.width_replicate_space, hstop]
      exact ih h.2.2

theorem lineValue_ends {text : List Char} (hne : text ≠ []) {start : Nat} (indent : Nat) {rest : List Line}
    (h : Line.From (start + width text) hi rest) : (lineValue text start indent rest).Ends hi (Item.Fits hi) := by
  have hline {joined : List Char × List Line} (h : Line.From (start + width text + width joined.1) hi joined.2) :
      Flow.Good hi (Item.Fits hi) (Flow.line ⟨start, text ++ joined.1⟩) := by
    have hstop : (⟨start, text ++ joined.1⟩ : Place).stop ≤ hi := by
      rw [Place.stop, Text.width_append, ← Nat.add_assoc]
      exact h.le
    exact (Flow.line_ends rfl (by simp [hne])).mono hstop fun _ hitem => hitem.mono hstop
  unfold lineValue
  generalize Flow.depthAfter 0 none ' ' text = depth
  dsimp only
  generalize (_ && depth != 0) = goesOn
  have hfrom : Line.From
      (start + width text + width (if goesOn then continuation indent depth (start + width text) rest else ([], rest)).1)
      hi (if goesOn then continuation indent depth (start + width text) rest else ([], rest)).2 := by
    cases goesOn with
    | true => exact continuation_from indent h
    | false => exact h
  generalize (if goesOn then continuation indent depth (start + width text) rest else ([], rest)) = joined
    at hfrom ⊢
  cases hread : Flow.line ⟨start, text ++ joined.1⟩ with
  | ok item =>
    have hitem : item.Fits hi := by simpa only [hread, Flow.Good] using hline hfrom
    exact ⟨hitem, hfrom.zero, fun d hd => .inl (Flow.repeatedKeys_fit hitem d hd)⟩
  | error fault =>
    have hfault : fault.Ends hi := by simpa only [hread, Flow.Good] using hline hfrom
    exact ⟨.null (Nat.le_trans (Nat.le_add_right ..) h.le), hfrom.zero, List.forall_mem_singleton.mpr hfault⟩

theorem skipDeeper_ends (indent : Nat) {rest : List Line} (h : Line.From 0 hi rest) :
    Line.From 0 hi (skipDeeper indent rest).1 ∧ ∀ d ∈ (skipDeeper indent rest).2, d.Ends hi := by
  cases rest with
  | nil => exact ⟨h, fun _ hd => absurd hd List.not_mem_nil⟩
  | cons l rest =>
    rw [skipDeeper]
    split
    · exact ⟨h.tail.dropWhile _, List.forall_mem_singleton.mpr (.inl (.of_span h.stop rfl))⟩
    · exact ⟨h, fun _ hd => absurd hd List.not_mem_nil⟩

end Block

/-! ## Keys -/

namespace Line

theorem exists_of_splitAtColon {cs key value : List Char} (h : splitAtColon cs = some (key, value)) :
    ∃ gap, (∀ c ∈ gap, Text.isBlank c = true) ∧ cs = key ++ ':' :: (gap ++ value) := by
  fun_induction splitAtColon cs generalizing key with
  | case1 => cases h
  | case2 =>
    cases h
    exact ⟨[], fun _ hc => absurd hc List.not_mem_nil, rfl⟩
  | case3 =>
    cases h
    exact ⟨[' '], List.forall_mem_singleton.mpr rfl, rfl⟩
  | case4 c cs _ _ ih =>
    obtain ⟨⟨key', value'⟩, hsplit, heq⟩ := Option.map_eq_some_iff.mp h
    cases heq
    obtain ⟨gap, hgap, rfl⟩ := ih hsplit
    exact ⟨gap, hgap, rfl⟩

/-- A key is in front of its value, and both are on the line. -/
structure Keyed.On (k : Keyed) (l : Line) : Prop where
  key : k.key.span.start + width k.key.value.toList = k.key.span.stop
  colon : k.key.span.stop + 1 ≤ l.stop
  value : k.valueStart + width k.value = l.stop

theorem keyed?_on {l : Line} {k : Keyed} (h : l.keyed? = some k) : k.On l := by
  unfold keyed? at h
  split at h
  iterate 5 cases h
  split at h
  · cases h
  · rename_i key value hsplit
    obtain ⟨gap, -, htext⟩ := exists_of_splitAtColon hsplit
    have hkey := Text.width_le_of_isPrefix (Flow.trimEnd_isPrefix key)
    have hbehind := Text.width_le_of_isSuffix ((List.dropWhile_suffix Text.isBlank).trans (List.suffix_append gap value))
    have hcolon : ':'.utf8Size = 1 := rfl
    have hwidth : width l.text = width key + (1 + width (gap ++ value)) := by
      rw [htext, Text.width_append, Text.width_cons, hcolon]
    dsimp only at h
    split at h
    · cases h
    · cases h
      refine ⟨?_, ?_, ?_⟩
      · simp only [String.toList_ofList, Span.sized]
      · simp only [Span.sized, Line.stop]
        omega
      · simp only [Line.stop, Text.trimStart]
        omega

end Line

namespace Block

variable {hi : Nat}

/-! ## Blocks -/

/-- The readers of blocks, `n` deep, of lines that end by `hi`. -/
structure Ending (hi n : Nat) : Prop where
  block {line : Line} {rest : List Line} (h : Line.From 0 hi (line :: rest)) :
    (block n line rest).Ends hi (Item.Fits hi)
  nested (indent : Nat) {at_ : Nat} (hat : at_ ≤ hi) {rest : List Line} (h : Line.From 0 hi rest) :
    (nested n indent at_ rest).Ends hi (Item.Fits hi)
  sequence {line : Line} {rest : List Line} (h : Line.From 0 hi (line :: rest)) :
    (sequence n line rest).Ends hi (Item.Fits hi)
  sequenceItems (indent : Nat) {lines : List Line} (h : Line.From 0 hi lines) :
    (sequenceItems n indent lines).Ends hi fun items => ∀ item ∈ items, item.Fits hi
  mapping {line : Line} {rest : List Line} (h : Line.From 0 hi (line :: rest)) :
    (mapping n line rest).Ends hi (Item.Fits hi)
  mappingEntries (indent : Nat) {seen : List (Spanned String)} (hseen : ∀ k ∈ seen, k.Fits hi) {lines : List Line}
    (h : Line.From 0 hi lines) :
    (mappingEntries n indent seen lines).Ends hi fun entries => ∀ e ∈ entries, Flow.EntryFits hi e

theorem Found.Ends.null {at_ : Nat} {rest : List Line} (hat : at_ ≤ hi) (h : Line.From 0 hi rest) :
    Found.Ends hi (Item.Fits hi) ⟨.null (.point at_), rest, []⟩ :=
  ⟨.null hat, h, fun _ hd => absurd hd List.not_mem_nil⟩

theorem Found.Ends.nil {α : Type} {good : α → Prop} {rest : List Line} (h : Line.From 0 hi rest) :
    Found.Ends hi (fun found => ∀ a ∈ found, good a) ⟨[], rest, []⟩ :=
  ⟨fun _ ha => absurd ha List.not_mem_nil, h, fun _ hd => absurd hd List.not_mem_nil⟩

theorem ending_zero : Ending hi 0 where
  block h := by
    rw [block]
    exact .null (Nat.le_trans (Nat.le_succ _) h.start_lt) h
  nested _ _ hat _ h := by
    rw [nested]
    exact .null hat h
  sequence h := by
    rw [sequence]
    exact .null (Nat.le_trans (Nat.le_succ _) h.start_lt) h
  sequenceItems _ _ h := by
    rw [sequenceItems]
    exact .nil h
  mapping h := by
    rw [mapping]
    exact .null (Nat.le_trans (Nat.le_succ _) h.start_lt) h
  mappingEntries _ _ _ _ h := by
    rw [mappingEntries]
    exact .nil h

section

variable {n : Nat} (ih : Ending hi n)
include ih

theorem block_ends {line : Line} {rest : List Line} (h : Line.From 0 hi (line :: rest)) :
    (block (n + 1) line rest).Ends hi (Item.Fits hi) := by
  unfold block
  split
  · exact ih.sequence h
  split
  · exact ih.mapping h
  · obtain ⟨hvalue, hrest, hfaults⟩ := lineValue_ends h.2.1 line.indent h.2.2
    obtain ⟨hleft, hskipped⟩ := skipDeeper_ends line.indent hrest
    exact ⟨hvalue, hleft, List.forall_mem_append.mpr ⟨hfaults, hskipped⟩⟩

theorem nested_ends (indent : Nat) {at_ : Nat} (hat : at_ ≤ hi) {rest : List Line} (h : Line.From 0 hi rest) :
    (nested (n + 1) indent at_ rest).Ends hi (Item.Fits hi) := by
  unfold nested
  split
  · split
    · exact ih.block h
    · exact .null hat h
  · exact .null hat h

theorem sequence_ends {line : Line} {rest : List Line} (h : Line.From 0 hi (line :: rest)) :
    (sequence (n + 1) line rest).Ends hi (Item.Fits hi) := by
  obtain ⟨hitems, hrest, hfaults⟩ := ih.sequenceItems line.indent h
  have hstart := h.start_lt
  unfold sequence
  refine ⟨.seq (between_stop_le (Nat.le_trans (Nat.le_succ _) hstart) ?_) hitems, hrest, hfaults⟩
  split
  · rename_i item hlast
    exact Nat.max_le.mpr ⟨(hitems item (List.mem_of_getLast? hlast)).span, hstart⟩
  · exact hstart

/-- What is behind a dash ends where its line does. -/
theorem bulletItem_ends (indent : Nat) {line : Line} {rest : List Line} (h : Line.From 0 hi (line :: rest)) :
    (Layout.bulletItem n indent line rest).Ends hi (Item.Fits hi) := by
  have hcontent : width (Text.trimStart (line.text.drop 1)) ≤ width line.text :=
    Text.width_le_of_isSuffix ((List.dropWhile_suffix Text.isBlank).trans (List.drop_suffix 1 line.text))
  unfold Layout.bulletItem
  generalize Text.trimStart (line.text.drop 1) = content at hcontent
  have hfrom : Line.From (line.start + (width line.text - width content) + width content) hi rest := by
    rw [Nat.add_assoc, Nat.sub_add_cancel hcontent]
    exact h.2.2
  dsimp only
  split
  · exact ih.nested indent h.stop h.tail
  · rename_i hempty
    have hne : content ≠ [] := by simpa using hempty
    split
    · exact ih.block ⟨Nat.zero_le _, hne, hfrom⟩
    · exact lineValue_ends hne indent hfrom

theorem sequenceItems_ends (indent : Nat) {lines : List Line} (h : Line.From 0 hi lines) :
    (sequenceItems (n + 1) indent lines).Ends hi fun items => ∀ item ∈ items, item.Fits hi := by
  cases lines with
  | nil =>
    rw [sequenceItems]
    exact .nil h
  | cons line rest =>
    rw [sequenceItems]
    split
    · exact .nil h
    · obtain ⟨hvalue, hrest, hfaults⟩ := bulletItem_ends ih indent h
      obtain ⟨hleft, hskipped⟩ := skipDeeper_ends indent hrest
      obtain ⟨hitems, hmore, hfaultsMore⟩ := ih.sequenceItems indent hleft
      exact ⟨List.forall_mem_cons.mpr ⟨hvalue, hitems⟩, hmore,
        List.forall_mem_append.mpr ⟨List.forall_mem_append.mpr ⟨hfaults, hskipped⟩, hfaultsMore⟩⟩

theorem entryItem_ends (indent : Nat) {line : Line} {rest : List Line} (h : Line.From 0 hi (line :: rest))
    {k : Line.Keyed} (hk : k.On line) : (Layout.entryItem n indent k rest).Ends hi (Item.Fits hi) := by
  have hstop := h.stop
  have hcolon := hk.colon
  have hnested : (nested n indent (k.key.span.stop + 1) rest).Ends hi (Item.Fits hi) :=
    ih.nested indent (Nat.le_trans hcolon hstop) h.tail
  unfold Layout.entryItem
  split
  · rename_i hvalue
    refine lineValue_ends (by simpa using hvalue) indent ?_
    rw [hk.value]
    exact h.2.2
  · split
    · rename_i next more
      split
      · exact ih.sequence h.tail
      · exact hnested
    · exact hnested

theorem mappingEntries_ends (indent : Nat) {seen : List (Spanned String)} (hseen : ∀ k ∈ seen, k.Fits hi)
    {lines : List Line} (h : Line.From 0 hi lines) :
    (mappingEntries (n + 1) indent seen lines).Ends hi fun entries => ∀ e ∈ entries, Flow.EntryFits hi e := by
  cases lines with
  | nil =>
    rw [mappingEntries]
    exact .nil h
  | cons line rest =>
    rw [mappingEntries]
    split
    · exact .nil h
    · split
      · obtain ⟨hleft, hskipped⟩ := skipDeeper_ends indent h.tail
        obtain ⟨hentries, hmore, hfaultsMore⟩ := ih.mappingEntries indent hseen hleft
        exact ⟨hentries, hmore, List.forall_mem_cons.mpr
          ⟨.inl (.of_span h.stop rfl), List.forall_mem_append.mpr ⟨hskipped, hfaultsMore⟩⟩⟩
      · rename_i key value start hkeyed
        have hon := Line.keyed?_on hkeyed
        have hstop := h.stop
        have hkey : key.Fits hi := by
          have hcolon := hon.colon
          have hwidth := hon.key
          refine ⟨?_, ?_⟩ <;> dsimp only at * <;> omega
        obtain ⟨hvalue, hrest, hfaults⟩ := entryItem_ends ih indent h hon
        obtain ⟨hleft, hskipped⟩ := skipDeeper_ends indent hrest
        obtain ⟨hentries, hmore, hfaultsMore⟩ := ih.mappingEntries indent
          (List.forall_mem_append.mpr ⟨hseen, List.forall_mem_singleton.mpr hkey⟩) hleft
        have hrepeated : ∀ d ∈ (Flow.duplicate? seen key).toList, d.Ends hi := fun d hd =>
          .inl (Flow.duplicate?_fits hseen hkey d (Option.mem_toList.mp hd))
        refine ⟨List.forall_mem_cons.mpr ⟨⟨hkey, hvalue⟩, hentries⟩, hmore, ?_⟩
        exact List.forall_mem_append.mpr ⟨List.forall_mem_append.mpr
          ⟨List.forall_mem_append.mpr ⟨hfaults, hrepeated⟩, hskipped⟩, hfaultsMore⟩

theorem mapping_ends {line : Line} {rest : List Line} (h : Line.From 0 hi (line :: rest)) :
    (mapping (n + 1) line rest).Ends hi (Item.Fits hi) := by
  obtain ⟨hentries, hrest, hfaults⟩ := ih.mappingEntries line.indent (fun _ hk => absurd hk List.not_mem_nil) h
  have hstart := h.start_lt
  unfold mapping
  refine ⟨.map (between_stop_le (Nat.le_trans (Nat.le_succ _) hstart) ?_) (fun e he => (hentries e he).1)
    fun e he => (hentries e he).2, hrest, hfaults⟩
  split
  · rename_i key value hlast
    obtain ⟨hkey, hvalue⟩ := hentries (key, value) (List.mem_of_getLast? hlast)
    exact Nat.max_le.mpr ⟨hvalue.span, hkey.span⟩
  · exact Nat.le_trans (Nat.le_succ _) hstart

end

theorem ending (hi n : Nat) : Ending hi n := by
  induction n with
  | zero => exact ending_zero
  | succ n ih =>
    exact {
      block := block_ends ih
      nested := nested_ends ih
      sequence := sequence_ends ih
      sequenceItems := sequenceItems_ends ih
      mapping := mapping_ends ih
      mappingEntries := mappingEntries_ends ih }

theorem ofLines_ends {lines : List Line} (h : Line.From 0 hi lines) :
    (ofLines lines).1.Fits hi ∧ ∀ d ∈ (ofLines lines).2, d.Ends hi := by
  cases lines with
  | nil => exact ⟨.null (Nat.zero_le _), fun _ hd => absurd hd List.not_mem_nil⟩
  | cons line rest =>
    obtain ⟨hvalue, hrest, hfaults⟩ := (ending hi (depthBound (line :: rest))).block h
    refine ⟨hvalue, List.forall_mem_append.mpr ⟨hfaults, ?_⟩⟩
    split
    · exact fun _ hd => absurd hd List.not_mem_nil
    · rename_i l ls hleft
      have hl : Line.From 0 hi (l :: ls) := hleft ▸ hrest
      exact List.forall_mem_singleton.mpr (.inl (.of_span hl.stop rfl))

end Block

/-! ## From text to lines -/

namespace Line

theorem withoutComment_isPrefix (quote : Option Char) (previous : Char) (cs : List Char) :
    withoutComment quote previous cs <+: cs := by
  induction cs generalizing quote previous with
  | nil => exact List.nil_prefix
  | cons c cs ih =>
    have hkeep (quote : Option Char) (next : Char) : c :: withoutComment quote next cs <+: c :: cs :=
      (List.prefix_cons_inj c).mpr (ih quote next)
    unfold withoutComment
    dsimp only
    split
    · exact hkeep _ _
    · split
      · exact hkeep _ _
      split
      · exact List.nil_prefix
      · exact hkeep _ _

theorem flatten_pieces (cs : List Char) : (pieces cs).flatten = cs := by
  induction cs with
  | nil => rfl
  | cons c cs ih =>
    rw [pieces]
    split
    · rw [List.flatten_cons, ih]
      rfl
    · split
      · rename_i hnil
        rw [hnil] at ih
        rw [← ih]
        rfl
      · rename_i piece more hmore
        rw [hmore] at ih
        rw [← ih]
        rfl

theorem utf8Size_of_isIndentation {c : Char} (h : isIndentation c = true) : c.utf8Size = 1 := by
  simp only [isIndentation, Bool.or_eq_true, beq_iff_eq] at h
  rcases h with rfl | rfl <;> rfl

/-- A line and a tab that indents it lie in the text they are on. -/
theorem ofText_ends (offset : Nat) (raw : List Char) :
    (∀ l ∈ (ofText offset raw).1, offset ≤ l.start ∧ l.text ≠ [] ∧ l.stop ≤ offset + width raw) ∧
      ∀ d ∈ (ofText offset raw).2, d.Fits (offset + width raw) := by
  have hraw : width (Text.dropEndWhile (fun c => c == '\n' || c == '\r') raw) ≤ width raw :=
    Text.width_le_of_isPrefix (List.rdropWhile_prefix _ raw)
  unfold ofText
  generalize Text.dropEndWhile (fun c => c == '\n' || c == '\r') raw = kept at hraw
  have hleading : width (kept.takeWhile isIndentation) = (kept.takeWhile isIndentation).length :=
    Text.width_of_oneByte fun c hc => utf8Size_of_isIndentation (List.mem_takeWhile_imp hc)
  have hcontent : width (Text.trimEnd (withoutComment none ' ' (kept.dropWhile isIndentation))) ≤
      width (kept.dropWhile isIndentation) :=
    Text.width_le_of_isPrefix ((Flow.trimEnd_isPrefix _).trans (withoutComment_isPrefix ..))
  have hkept : width kept = width (kept.takeWhile isIndentation) + width (kept.dropWhile isIndentation) := by
    rw [← Text.width_append, List.takeWhile_append_dropWhile]
  refine ⟨?_, ?_⟩
  · intro l hl
    dsimp only at hl
    split at hl
    · cases hl
    · rename_i hsome
      cases hl
      refine ⟨Nat.le_add_right .., ?_, ?_⟩
      · rintro hnil
        dsimp only at hnil
        rw [hnil] at hsome
        exact hsome rfl
      · simp only [Line.stop]
        omega
  · intro d hd
    obtain ⟨i, hi, rfl⟩ := Option.map_eq_some_iff.mp hd
    have hlt : i < (kept.takeWhile isIndentation).length := (List.findIdx?_eq_some_iff_findIdx_eq.mp hi).1
    refine .of_span ?_ rfl
    simp only [Span.sized]
    omega

/-- The lines of a text are in order, and the tabs that indent them are in the text. -/
theorem ofPieces_ends (pieces : List (List Char)) (offset : Nat) :
    From offset (offset + width pieces.flatten) (ofPieces offset pieces).1 ∧
      ∀ d ∈ (ofPieces offset pieces).2, d.Fits (offset + width pieces.flatten) := by
  induction pieces generalizing offset with
  | nil => exact ⟨Nat.le_add_right .., fun _ hd => absurd hd List.not_mem_nil⟩
  | cons piece more ih =>
    obtain ⟨hline, htab⟩ := ofText_ends offset piece
    obtain ⟨hlines, htabs⟩ := ih (offset + width piece)
    have hwidth : offset + width (piece :: more).flatten = offset + width piece + width more.flatten := by
      rw [List.flatten_cons, Text.width_append, Nat.add_assoc]
    rw [hwidth]
    refine ⟨?_, List.forall_mem_append.mpr ⟨fun d hd => ?_, htabs⟩⟩
    · show From offset _ ((ofText offset piece).1.toList ++ (ofPieces (offset + width piece) more).1)
      cases hl : (ofText offset piece).1 with
      | none => exact hlines.mono (Nat.le_add_right ..)
      | some l =>
        obtain ⟨hstart, hne, hstop⟩ := hline l hl
        exact ⟨hstart, hne, hlines.mono hstop⟩
    · exact (htab d (Option.mem_toList.mp hd)).mono (Nat.le_add_right ..)

end Line

/-- A tree that is read lies in the text, and so does what is reported of a text that has none. -/
theorem Item.read_ends (text : List Char) : match Item.read text with
    | .ok root => root.Fits (width text)
    | .error faults => ∀ d ∈ faults, d.Ends (width text) := by
  obtain ⟨hlines, htabs⟩ := Line.ofPieces_ends (Line.pieces text) 0
  rw [Line.flatten_pieces, Nat.zero_add] at hlines htabs
  obtain ⟨hroot, hfaults⟩ := Block.ofLines_ends hlines
  have hall := List.forall_mem_append.mpr ⟨fun d hd => Or.inl (htabs d hd), hfaults⟩
  unfold Item.read Line.ofDocument
  dsimp only
  generalize (Line.ofPieces 0 (Line.pieces text)).2 ++ (Block.ofLines (Line.ofPieces 0 (Line.pieces text)).1).2 = faults
    at hall ⊢
  cases faults with
  | nil => exact hroot
  | cons d ds => exact hall

end Sketchwork
