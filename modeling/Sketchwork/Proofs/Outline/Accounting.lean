/-
  Sketchwork.Proofs.Outline.Accounting — the readers of blocks account for the lines they take.

  Readers take turns on a bound, and a reader that opens another one leaves it less to read: fewer
  lines, or the same lines with the first one cut shorter (`size`). So none of them comes to its
  bound, and a block takes its first line whatever it is.

  Proved: with enough of a bound each reader takes lines from the front, and a ledger of them goes
  with what it returns as long as its faults are reported (`accounting`).
-/
import Sketchwork.Proofs.Outline.Ledger

namespace Sketchwork.Ledger

open Text (isBlank width)

/-! ## Taking lines -/

/-- The characters of lines and one more for every line. -/
def size (ls : List Line) : Nat :=
  Layout.weight (ls.map Layout.ofLine)

@[simp] theorem size_cons (l : Line) (ls : List Line) : size (l :: ls) = l.text.length + 1 + size ls :=
  rfl

@[simp] theorem size_append (a b : List Line) : size (a ++ b) = size a + size b := by
  rw [size, List.map_append, Layout.weight_append]
  rfl

/-- A reader takes lines from the front, and with its faults reported a ledger of them goes with
    what it found. -/
def Takes {α : Type} (found : Block.Found α) (ls : List Line) (good : List Diagnostic → Ledger → α → Prop) : Prop :=
  ∃ ledger, lines ledger ++ found.rest = ls ∧ ∀ reported, found.faults ⊆ reported → good reported ledger found.value

section

variable {α : Type} {found : Block.Found α} {ls : List Line} {good weaker : List Diagnostic → Ledger → α → Prop}

theorem Takes.nothing {a : α} (h : ∀ reported, good reported [] a) : Takes ⟨a, ls, []⟩ ls good :=
  ⟨[], rfl, fun reported _ => h reported⟩

theorem Takes.size_le (h : Takes found ls good) : size found.rest ≤ size ls := by
  obtain ⟨ledger, rfl, -⟩ := h
  rw [size_append]
  exact Nat.le_add_left ..

theorem Takes.mono (h : Takes found ls good) (hgood : ∀ reported ledger a, good reported ledger a → weaker reported ledger a) :
    Takes found ls weaker := by
  obtain ⟨ledger, hlines, htaken⟩ := h
  exact ⟨ledger, hlines, fun reported hfaults => hgood reported ledger found.value (htaken reported hfaults)⟩

end

theorem skipDeeper_passed (indent : Nat) (rest : List Line) :
    ∃ ledger, lines ledger ++ (Block.skipDeeper indent rest).1 = rest ∧
      ∀ reported, (Block.skipDeeper indent rest).2 ⊆ reported → Passed reported indent ledger := by
  cases rest with
  | nil => exact ⟨[], rfl, fun _ _ => .none⟩
  | cons first rest =>
    rw [Block.skipDeeper]
    split
    · rename_i hfirst
      have hdeep : ∀ l ∈ first :: rest.takeWhile (indent < ·.indent), indent < l.indent := by
        refine List.forall_mem_cons.mpr ⟨hfirst, fun l hl => ?_⟩
        exact of_decide_eq_true (List.mem_takeWhile_imp (p := fun l : Line => decide (indent < l.indent)) hl)
      refine ⟨all (.passed (stray first)) (first :: rest.takeWhile (indent < ·.indent)), ?_, fun reported hfaults => ?_⟩
      · rw [lines_all, List.cons_append, List.takeWhile_append_dropWhile]
      · exact .lines hdeep (hfaults List.mem_cons_self)
    · exact ⟨[], rfl, fun _ _ => .none⟩

theorem size_skipDeeper_le (indent : Nat) (rest : List Line) : size (Block.skipDeeper indent rest).1 ≤ size rest := by
  obtain ⟨ledger, hlines, -⟩ := skipDeeper_passed indent rest
  conv_rhs => rw [← hlines, size_append]
  exact Nat.le_add_left ..

/-- The text that goes on is that of lines from the front. -/
theorem continuation_joined (indent depth stop : Nat) (rest : List Line) :
    ∃ ls, ls ++ (Block.continuation indent depth stop rest).2 = rest ∧
      (Block.continuation indent depth stop rest).1 = joined stop ls ∧
      ∀ l ∈ ls, indent < l.indent ∨ l.text.head? = some ']' ∨ l.text.head? = some '\x7d' := by
  induction rest generalizing depth stop with
  | nil => exact ⟨[], rfl, rfl, List.forall_mem_nil _⟩
  | cons l rest ih =>
    rw [Block.continuation]
    dsimp only
    generalize htaken : (depth != 0 && _) = taken
    cases taken with
    | false => exact ⟨[], rfl, rfl, List.forall_mem_nil _⟩
    | true =>
      obtain ⟨ls, hrest, hjoined, hls⟩ := ih (Flow.depthAfter depth none ' ' l.text) l.stop
      obtain ⟨-, hgoes⟩ := Bool.and_eq_true_iff.mp htaken
      refine ⟨l :: ls, congrArg (l :: ·) hrest, ?_, List.forall_mem_cons.mpr ⟨?_, hls⟩⟩
      · rw [if_pos rfl, joined, ← hjoined]
      rcases Bool.or_eq_true_iff.mp hgoes with hdeep | hcloses
      · exact .inl (of_decide_eq_true hdeep)
      · split at hcloses
        · rename_i htext
          exact .inr (.inl (by rw [htext]; rfl))
        · rename_i htext
          exact .inr (.inr (by rw [htext]; rfl))
        · cases hcloses

theorem lineValue_takes (text : List Char) (start indent : Nat) (rest : List Line) :
    Takes (Block.lineValue text start indent rest) rest fun reported => Value reported indent start text := by
  unfold Block.lineValue
  generalize Flow.depthAfter 0 none ' ' text = depth
  dsimp only
  generalize hopen : (_ && depth != 0) = isOpen
  have hgoesOn : ∃ ls, ls ++ (if isOpen then Block.continuation indent depth (start + width text) rest else ([], rest)).2 = rest ∧
      (if isOpen then Block.continuation indent depth (start + width text) rest else ([], rest)).1 =
        joined (start + width text) ls ∧ GoesOn indent text ls := by
    cases isOpen with
    | false => exact ⟨[], rfl, rfl, fun hne => absurd rfl hne, List.forall_mem_nil _⟩
    | true =>
      obtain ⟨ls, hrest, hjoined, hls⟩ := continuation_joined indent depth (start + width text) rest
      refine ⟨ls, hrest, hjoined, fun _ => ?_, hls⟩
      obtain ⟨hcollection, -⟩ := Bool.and_eq_true_iff.mp hopen
      split at hcollection
      · exact .inl rfl
      · exact .inr rfl
      · cases hcollection
  generalize (if isOpen then Block.continuation indent depth (start + width text) rest else ([], rest)) = found at hgoesOn ⊢
  obtain ⟨ls, hrest, hjoined, hlines⟩ := hgoesOn
  rw [hjoined]
  refine ⟨all .continuation ls, ?_, fun reported hfaults => ?_⟩
  · cases Flow.line ⟨start, text ++ joined (start + width text) ls⟩ <;> exact (lines_all .continuation ls).symm ▸ hrest
  · cases hread : Flow.line ⟨start, text ++ joined (start + width text) ls⟩ with
    | ok item => exact .read hlines hread
    | error fault =>
      rw [hread] at hfaults
      exact .refused hlines hread (hfaults List.mem_cons_self)

/-- A part is read, deeper lines behind it are passed over, and more is read of what is left. -/
theorem Takes.part {α β : Type} {part : Block.Found α} {more : Block.Found β} {indent : Nat} {rest : List Line}
    {good : List Diagnostic → Ledger → α → Prop} {good' : List Diagnostic → Ledger → β → Prop} (hpart : Takes part rest good)
    (hmore : Takes more (Block.skipDeeper indent part.rest).1 good') :
    ∃ below skipped ledger, lines (below ++ (skipped ++ ledger)) ++ more.rest = rest ∧ ∀ reported, part.faults ⊆ reported →
      (Block.skipDeeper indent part.rest).2 ⊆ reported → more.faults ⊆ reported →
      good reported below part.value ∧ Passed reported indent skipped ∧ good' reported ledger more.value := by
  obtain ⟨below, hbelow, hgood⟩ := hpart
  obtain ⟨skipped, hskipped, hpassed⟩ := skipDeeper_passed indent part.rest
  obtain ⟨ledger, hlines, hgood'⟩ := hmore
  refine ⟨below, skipped, ledger, ?_, fun reported h h' h'' => ⟨hgood reported h, hpassed reported h', hgood' reported h''⟩⟩
  rw [lines_append, lines_append, List.append_assoc, List.append_assoc, hlines, hskipped, hbelow]

/-! ## Dashes and keys -/

theorem exists_trimStart (cs : List Char) : ∃ gap, (∀ c ∈ gap, isBlank c = true) ∧ cs = gap ++ Text.trimStart cs :=
  ⟨cs.takeWhile isBlank, fun _ hc => List.mem_takeWhile_imp hc, List.takeWhile_append_dropWhile.symm⟩

theorem exists_trimEnd (cs : List Char) : ∃ gap, (∀ c ∈ gap, isBlank c = true) ∧ cs = Text.trimEnd cs ++ gap := by
  obtain ⟨gap, hgap, hcs⟩ := exists_trimStart cs.reverse
  refine ⟨gap.reverse, fun c hc => hgap c (List.mem_reverse.mp hc), ?_⟩
  conv_lhs => rw [← cs.reverse_reverse, hcs, List.reverse_append]
  rfl

/-- What is read behind a dash as a line of its own. -/
def inner (line : Line) : Line :=
  let content := Text.trimStart (line.text.drop 1)
  let column := width line.text - width content
  ⟨line.indent + column, content, line.start + column⟩

theorem dash_inner {line : Line} (h : line.isSequenceEntry = true) : Dash line (inner line) := by
  obtain ⟨cs, htext⟩ : ∃ cs, line.text = '-' :: cs := by
    unfold Line.isSequenceEntry at h
    split at h
    · exact ⟨[], by assumption⟩
    · exact ⟨_, by assumption⟩
    · cases h
  obtain ⟨gap, hgap, hcs⟩ := exists_trimStart cs
  have hinner : (inner line).text = Text.trimStart cs := by
    simp only [inner, htext, List.drop_succ_cons, List.drop_zero]
  refine ⟨⟨gap, hgap, by rw [htext, hinner, ← hcs]⟩, ?_, ?_⟩
  · have hwidth : width (Text.trimStart (line.text.drop 1)) ≤ width line.text :=
      Text.width_le_of_isSuffix ((List.dropWhile_suffix isBlank).trans (List.drop_suffix 1 line.text))
    simp only [inner, Line.stop]
    omega
  · simp only [inner]
    omega

theorem Dash.length_lt {line inner : Line} (h : Dash line inner) : inner.text.length < line.text.length := by
  obtain ⟨gap, -, htext⟩ := h.text
  rw [htext, List.length_cons, List.length_append]
  omega

theorem colon_of_keyed? {line : Line} {k : Line.Keyed} (h : line.keyed? = some k) : Colon line k := by
  have hon := Line.keyed?_on h
  unfold Line.keyed? at h
  split at h
  iterate 5 cases h
  split at h
  · cases h
  · rename_i key value hsplit
    obtain ⟨gap, hgap, htext⟩ := Line.exists_of_splitAtColon hsplit
    obtain ⟨before, hbefore, hkey⟩ := exists_trimEnd key
    obtain ⟨behind, hbehind, hvalue⟩ := exists_trimStart value
    dsimp only at h
    split at h
    · cases h
    · rename_i hempty
      cases h
      refine ⟨⟨before, gap ++ behind, ?_, ?_⟩, ?_, ?_, hon.value⟩
      · exact List.forall_mem_append.mpr ⟨hbefore, List.forall_mem_append.mpr ⟨hgap, hbehind⟩⟩
      · rw [htext]
        conv_lhs => rw [hkey, hvalue]
        simp only [String.toList_ofList, List.append_assoc]
      · simpa using hempty
      · rw [String.toList_ofList]

theorem Colon.length_pos {line : Line} {k : Line.Keyed} (h : Colon line k) : 0 < line.text.length := by
  obtain ⟨before, gap, -, htext⟩ := h.text
  rw [htext, List.length_append]
  exact Nat.lt_of_lt_of_le (List.length_pos_iff.mpr h.key) (Nat.le_add_right ..)

/-! ## Readers -/

/-- The readers of blocks, `n` deep, where this is enough for the lines. -/
structure Accounting (n : Nat) : Prop where
  block {line : Line} {rest : List Line} (hn : 3 * size (line :: rest) + 3 ≤ n) :
    Takes (Block.block n line rest) (line :: rest) Holds
  nested (indent at_ start : Nat) {rest : List Line} (hn : 3 * size rest + 4 ≤ n) :
    Takes (Block.nested n indent at_ rest) rest fun reported => Part reported indent start []
  sequence {line : Line} {rest : List Line} (hline : line.isSequenceEntry = true) (hn : 3 * size (line :: rest) + 2 ≤ n) :
    Takes (Block.sequence n line rest) (line :: rest) fun reported ledger item => ∃ items span, item = .seq items span ∧
      ledger.head? = some (line, .item) ∧ Bullets reported line.indent ledger items
  sequenceItems (indent : Nat) {ls : List Line} (hn : 3 * size ls + 1 ≤ n) :
    Takes (Block.sequenceItems n indent ls) ls fun reported ledger items => Bullets reported indent ledger items ∧
      ∀ l ∈ ls.head?, l.indent = indent → l.isSequenceEntry = true → ledger.head? = some (l, .item)
  mapping {line : Line} {rest : List Line} (hline : line.keyed?.isSome = true) (hn : 3 * size (line :: rest) + 2 ≤ n) :
    Takes (Block.mapping n line rest) (line :: rest) Holds
  mappingEntries (indent : Nat) (seen : List (Spanned String)) {ls : List Line} (hn : 3 * size ls + 1 ≤ n) :
    Takes (Block.mappingEntries n indent seen ls) ls fun reported ledger entries => Entries reported indent ledger entries ∧
      ∀ l ∈ ls.head?, l.indent = indent → l.keyed?.isSome = true → ledger.head? = some (l, .key)

theorem accounting_zero : Accounting 0 where
  block hn := by omega
  nested _ _ _ _ hn := by omega
  sequence _ hn := by omega
  sequenceItems _ _ hn := by omega
  mapping _ hn := by omega
  mappingEntries _ _ _ hn := by omega

section

variable {n : Nat} (ih : Accounting n) {line : Line} {rest : List Line}
include ih

theorem block_takes (hn : 3 * size (line :: rest) + 3 ≤ n + 1) : Takes (Block.block (n + 1) line rest) (line :: rest) Holds := by
  unfold Block.block
  split
  · rename_i hline
    refine (ih.sequence hline (by omega)).mono ?_
    rintro reported ledger _ ⟨items, span, rfl, hfirst, hitems⟩
    exact .list hfirst hitems
  split
  · rename_i hline
    exact ih.mapping hline (by omega)
  · obtain ⟨below, hbelow, hvalue⟩ := lineValue_takes line.text line.start line.indent rest
    obtain ⟨skipped, hskipped, hpassed⟩ := skipDeeper_passed line.indent
      (Block.lineValue line.text line.start line.indent rest).rest
    refine ⟨(line, .item) :: (below ++ skipped), ?_, fun reported hfaults => ?_⟩
    · rw [lines_cons, lines_append, List.cons_append, List.append_assoc, hskipped, hbelow]
    · obtain ⟨hfaults, hfaults'⟩ := List.append_subset.mp hfaults
      exact .value (hvalue reported hfaults) (hpassed reported hfaults')

theorem nested_takes (indent at_ start : Nat) (hn : 3 * size rest + 4 ≤ n + 1) :
    Takes (Block.nested (n + 1) indent at_ rest) rest fun reported => Part reported indent start [] := by
  unfold Block.nested
  split
  · rename_i next more
    split
    · rename_i hdeep
      obtain ⟨ledger, hlines, hblock⟩ := ih.block (show 3 * size (next :: more) + 3 ≤ n by omega)
      refine ⟨ledger, hlines, fun reported hfaults => ?_⟩
      have hholds := hblock reported hfaults
      obtain ⟨first, use, below, rfl⟩ := hholds.exists_first
      obtain rfl : first = next := (List.cons.inj hlines).1
      exact .block rfl hdeep hholds
    · exact .nothing fun _ => .nothing
  · exact .nothing fun _ => .nothing

theorem sequence_takes (hline : line.isSequenceEntry = true) (hn : 3 * size (line :: rest) + 2 ≤ n + 1) :
    Takes (Block.sequence (n + 1) line rest) (line :: rest) fun reported ledger item => ∃ items span,
      item = .seq items span ∧ ledger.head? = some (line, .item) ∧ Bullets reported line.indent ledger items := by
  obtain ⟨ledger, hlines, hitems⟩ := ih.sequenceItems line.indent (show 3 * size (line :: rest) + 1 ≤ n by omega)
  unfold Block.sequence
  refine ⟨ledger, hlines, fun reported hfaults => ?_⟩
  obtain ⟨hbullets, hfirst⟩ := hitems reported hfaults
  exact ⟨_, _, rfl, hfirst line rfl rfl hline, hbullets⟩

theorem bulletItem_takes (hline : line.isSequenceEntry = true) (hn : 3 * size (line :: rest) ≤ n) :
    Takes (Layout.bulletItem n line.indent line rest) rest fun reported => Bullet reported line.indent line := by
  have hdash := dash_inner hline
  have hlength := hdash.length_lt
  rw [size_cons] at hn
  show Takes (if (inner line).text.isEmpty then Block.nested n line.indent line.stop rest
    else if (inner line).isSequenceEntry || (inner line).keyed?.isSome then Block.block n (inner line) rest
    else Block.lineValue (inner line).text (inner line).start line.indent rest) rest _
  split
  · rename_i hempty
    refine (ih.nested line.indent line.stop (inner line).start (by omega)).mono fun reported below item hpart => ?_
    rw [← List.isEmpty_iff.mp hempty] at hpart
    exact .part hdash hpart
  · rename_i hempty
    split
    · obtain ⟨ledger, hlines, hblock⟩ := ih.block (show 3 * size (inner line :: rest) + 3 ≤ n by rw [size_cons]; omega)
      obtain ⟨first, use, below, rfl⟩ := (hblock _ (List.Subset.refl _)).exists_first
      obtain ⟨rfl, hbelow⟩ := List.cons.inj hlines
      exact ⟨below, hbelow, fun reported hfaults => .block hdash (hblock reported hfaults)⟩
    · refine (lineValue_takes (inner line).text (inner line).start line.indent rest).mono fun reported below item hvalue => ?_
      exact .part hdash (.value (fun hnil => hempty (List.isEmpty_iff.mpr hnil)) hvalue)

theorem sequenceItems_take (indent : Nat) {ls : List Line} (hn : 3 * size ls + 1 ≤ n + 1) :
    Takes (Block.sequenceItems (n + 1) indent ls) ls fun reported ledger items => Bullets reported indent ledger items ∧
      ∀ l ∈ ls.head?, l.indent = indent → l.isSequenceEntry = true → ledger.head? = some (l, .item) := by
  cases ls with
  | nil =>
    rw [Block.sequenceItems]
    exact .nothing fun _ => ⟨.nil, fun _ hl => absurd hl (Option.not_mem_none _)⟩
  | cons line rest =>
    rw [Block.sequenceItems]
    split
    · rename_i hends
      refine .nothing fun _ => ⟨.nil, ?_⟩
      rintro _ ⟨⟩ hindent hline
      simp [hindent, hline] at hends
    · rename_i hbegins
      obtain ⟨hindent, hline⟩ : line.indent = indent ∧ line.isSequenceEntry = true := by simpa using hbegins
      subst hindent
      have hitem := bulletItem_takes ih hline (show 3 * size (line :: rest) ≤ n by omega)
      have hrest := Nat.le_trans (size_skipDeeper_le line.indent _) hitem.size_le
      have hleft : 3 * size (Block.skipDeeper line.indent (Layout.bulletItem n line.indent line rest).rest).1 + 1 ≤ n := by
        rw [size_cons] at hn
        omega
      obtain ⟨below, skipped, more, hlines, htaken⟩ := hitem.part (ih.sequenceItems line.indent hleft)
      refine ⟨(line, .item) :: (below ++ (skipped ++ more)), congrArg (line :: ·) hlines, fun reported hfaults => ⟨?_, ?_⟩⟩
      · obtain ⟨hfaults, hmore⟩ := List.append_subset.mp hfaults
        obtain ⟨hitem, hskip⟩ := List.append_subset.mp hfaults
        obtain ⟨hbullet, hpassed, hbullets, -⟩ := htaken reported hitem hskip hmore
        exact .cons rfl hbullet hpassed hbullets
      · rintro _ ⟨⟩ - -
        rfl

theorem entryItem_takes (indent : Nat) {k : Line.Keyed} (hn : 3 * size rest + 6 ≤ n) :
    Takes (Layout.entryItem n indent k rest) rest fun reported => Entry reported indent k := by
  unfold Layout.entryItem
  split
  · rename_i hvalue
    refine (lineValue_takes k.value k.valueStart indent rest).mono fun reported below item hitem => ?_
    exact .part (.value (by simpa using hvalue) hitem)
  · rename_i hvalue
    have hnothing : k.value = [] := by simpa using hvalue
    have hnested : Takes (Block.nested n indent (k.key.span.stop + 1) rest) rest fun reported => Entry reported indent k := by
      refine (ih.nested indent _ k.valueStart (by omega)).mono fun reported below item hpart => ?_
      rw [← hnothing] at hpart
      exact .part hpart
    split
    · rename_i next more
      split
      · rename_i hlist
        obtain ⟨hindent, hline⟩ : next.indent = indent ∧ next.isSequenceEntry = true := by simpa using hlist
        refine (ih.sequence hline (show 3 * size (next :: more) + 2 ≤ n by omega)).mono ?_
        rintro reported ledger _ ⟨items, span, rfl, hfirst, hitems⟩
        exact .list hnothing hfirst (hindent ▸ hitems)
      · exact hnested
    · exact hnested

theorem mappingEntries_take (indent : Nat) (seen : List (Spanned String)) {ls : List Line} (hn : 3 * size ls + 1 ≤ n + 1) :
    Takes (Block.mappingEntries (n + 1) indent seen ls) ls fun reported ledger entries =>
      Entries reported indent ledger entries ∧
        ∀ l ∈ ls.head?, l.indent = indent → l.keyed?.isSome = true → ledger.head? = some (l, .key) := by
  cases ls with
  | nil =>
    rw [Block.mappingEntries]
    exact .nothing fun _ => ⟨.nil, fun _ hl => absurd hl (Option.not_mem_none _)⟩
  | cons line rest =>
    rw [size_cons] at hn
    rw [Block.mappingEntries]
    split
    · rename_i hends
      refine .nothing fun _ => ⟨.nil, ?_⟩
      rintro _ ⟨⟩ hindent -
      simp [hindent] at hends
    · rename_i hbegins
      have hindent : line.indent = indent := by simpa using hbegins
      split
      · rename_i hnone
        obtain ⟨skipped, hskipped, hpassed⟩ := skipDeeper_passed indent rest
        have hrest := size_skipDeeper_le indent rest
        have hleft : 3 * size (Block.skipDeeper indent rest).1 + 1 ≤ n := by omega
        obtain ⟨more, hmore, hentries⟩ := ih.mappingEntries indent seen hleft
        refine ⟨(line, .passed (notAnEntry line)) :: (skipped ++ more), ?_, fun reported hfaults => ⟨?_, ?_⟩⟩
        · simp only [lines_cons, lines_append, List.cons_append, List.append_assoc]
          exact congrArg (line :: ·) ((congrArg _ hmore).trans hskipped)
        · obtain ⟨hfault, hfaults⟩ := List.cons_subset.mp hfaults
          obtain ⟨hfaults₁, hfaults₂⟩ := List.append_subset.mp hfaults
          exact .notEntry hfault (hpassed reported hfaults₁) (hentries reported hfaults₂).1
        · rintro _ ⟨⟩ - hkey
          rw [hnone] at hkey
          cases hkey
      · rename_i key value start hkeyed
        have hcolon := colon_of_keyed? hkeyed
        have hlength := hcolon.length_pos
        have hitem := entryItem_takes ih indent (k := ⟨key, value, start⟩) (show 3 * size rest + 6 ≤ n by omega)
        have hrest := Nat.le_trans (size_skipDeeper_le indent _) hitem.size_le
        have hleft : 3 * size (Block.skipDeeper indent (Layout.entryItem n indent ⟨key, value, start⟩ rest).rest).1 + 1 ≤ n := by
          omega
        obtain ⟨below, skipped, more, hlines, htaken⟩ := hitem.part (ih.mappingEntries indent (seen ++ [key]) hleft)
        refine ⟨(line, .key) :: (below ++ (skipped ++ more)), congrArg (line :: ·) hlines, fun reported hfaults => ⟨?_, ?_⟩⟩
        · obtain ⟨hfaults, hmore⟩ := List.append_subset.mp hfaults
          obtain ⟨hfaults, hskip⟩ := List.append_subset.mp hfaults
          obtain ⟨hitem, -⟩ := List.append_subset.mp hfaults
          obtain ⟨hentry, hpassed, hentries, -⟩ := htaken reported hitem hskip hmore
          exact .cons hindent hcolon hentry hpassed hentries
        · rintro _ ⟨⟩ - -
          rfl

theorem mapping_takes (hline : line.keyed?.isSome = true) (hn : 3 * size (line :: rest) + 2 ≤ n + 1) :
    Takes (Block.mapping (n + 1) line rest) (line :: rest) Holds := by
  obtain ⟨ledger, hlines, hentries⟩ := ih.mappingEntries line.indent [] (show 3 * size (line :: rest) + 1 ≤ n by omega)
  unfold Block.mapping
  refine ⟨ledger, hlines, fun reported hfaults => ?_⟩
  obtain ⟨hentries, hfirst⟩ := hentries reported hfaults
  exact .map (hfirst line rfl rfl hline) hentries

end

theorem accounting (n : Nat) : Accounting n := by
  induction n with
  | zero => exact accounting_zero
  | succ n ih =>
    exact {
      block := block_takes ih
      nested := fun indent at_ start _ hn => nested_takes ih indent at_ start hn
      sequence := sequence_takes ih
      sequenceItems := sequenceItems_take ih
      mapping := mapping_takes ih
      mappingEntries := mappingEntries_take ih }

/-! ## Documents -/

/-- What a piece of a text holds, without its indentation, its comment and the blanks at its end. -/
def content (piece : List Char) : List Char :=
  Text.trimEnd (Line.withoutComment none ' ' ((Text.dropEndWhile Layout.isBreak piece).dropWhile Line.isIndentation))

/-- What is written on each line of a text that is not blank and no marker. -/
def contents (text : List Char) : List (List Char) :=
  ((Line.pieces text).map content).filter fun cs => !(cs.isEmpty || Line.isMarker cs)

theorem text_ofText (offset : Nat) (piece : List Char) : (Line.ofText offset piece).1.toList.map (·.text) =
    if (content piece).isEmpty || Line.isMarker (content piece) then [] else [content piece] := by
  unfold Line.ofText
  dsimp only
  split
  · rename_i hnone
    exact (if_pos hnone).symm
  · rename_i hsome
    exact (if_neg hsome).symm

theorem lines_contents (text : List Char) : (Line.ofDocument text).1.map (·.text) = contents text := by
  have hpieces (pieces : List (List Char)) (offset : Nat) : (Line.ofPieces offset pieces).1.map (·.text) =
      (pieces.map content).filter fun cs => !(cs.isEmpty || Line.isMarker cs) := by
    induction pieces generalizing offset with
    | nil => rfl
    | cons piece more ih =>
      rw [Line.ofPieces, List.map_append, text_ofText, ih, List.map_cons, List.filter_cons]
      cases (content piece).isEmpty || Line.isMarker (content piece) <;> rfl
  exact hpieces (Line.pieces text) 0

/-- The lines of a document and its tree. -/
inductive Document (reported : List Diagnostic) : Ledger → Item → Prop
  | empty : Document reported [] (.null (.point 0))
  | whole {ledger : Ledger} {root : Item} (hroot : Holds reported ledger root) : Document reported ledger root
  | left {ledger : Ledger} {root : Item} {first : Line} {ls : List Line} (hroot : Holds reported ledger root)
      (hreported : stray first ∈ reported) : Document reported (ledger ++ all (.passed (stray first)) (first :: ls)) root

theorem Document.all_reported {reported : List Diagnostic} {ledger : Ledger} {root : Item}
    (h : Document reported ledger root) : Reported reported ledger := by
  cases h with
  | empty => exact .nil
  | whole hroot => exact hroot.all_reported
  | left hroot hreported =>
    refine hroot.all_reported.append (.all (fun _ h => ?_) _)
    cases h
    exact hreported

theorem ofLines_document (ls : List Line) : ∃ ledger, lines ledger = ls ∧
    ∀ reported, (Block.ofLines ls).2 ⊆ reported → Document reported ledger (Block.ofLines ls).1 := by
  cases ls with
  | nil => exact ⟨[], rfl, fun _ _ => .empty⟩
  | cons line rest =>
    have hbound : Block.depthBound (line :: rest) = 6 * (size (line :: rest) + 1) := Layout.depthBound_eq _
    obtain ⟨ledger, hlines, hholds⟩ := (accounting (Block.depthBound (line :: rest))).block
      (show 3 * size (line :: rest) + 3 ≤ Block.depthBound (line :: rest) by omega)
    unfold Block.ofLines
    dsimp only
    generalize Block.block (Block.depthBound (line :: rest)) line rest = root at hlines hholds
    obtain ⟨value, left, faults⟩ := root
    dsimp only at hlines hholds ⊢
    cases left with
    | nil =>
      refine ⟨ledger, (List.append_nil _).symm.trans hlines, fun reported hfaults => .whole (hholds reported ?_)⟩
      exact (List.append_subset.mp hfaults).1
    | cons first left =>
      refine ⟨ledger ++ all (.passed (stray first)) (first :: left), ?_, fun reported hfaults => ?_⟩
      · rw [lines_append, lines_all, hlines]
      · obtain ⟨hroot, hleft⟩ := List.append_subset.mp hfaults
        exact .left (hholds reported hroot) (hleft List.mem_cons_self)

end Sketchwork.Ledger
