/-
  Sketchwork.Proofs.Outline.Placement — where the parts of a tree stand in the document.

  A value on a line is written at its range; a collection that goes on over further lines is written
  there with the gaps between them filled, and at each of the line ends in it one of its brackets is
  open (`Spreads`). The readers of blocks pass what they return, each part behind the one before, and
  the lines that are left lie behind (`Placing`); each reader keeps this, as long as it does not come
  to its bound, and none does.

  Proved: every text of a tree that is read is read again from what is written at its range, with its
  gaps filled (`read_stands`); all parts of the tree lie in the text, in every list and map one behind
  the other in its range, and every key and value is written where its range says
  (`laid_out_in_source`).
-/
import Mathlib
import Sketchwork.Proofs.Outline.Bounds
import Sketchwork.Proofs.Outline.Sources

namespace Sketchwork

open Text (width)

/-- The value is behind the key and its colon. -/
theorem Ledger.Colon.stop_le {line : Line} {k : Line.Keyed} (h : Colon line k) : k.key.span.stop ≤ k.valueStart := by
  obtain ⟨before, gap, -, htext⟩ := h.text
  have hvalue := h.value
  have hwidth := congrArg width htext
  simp only [Text.width_append, Text.width_cons] at hwidth
  simp only [Line.stop] at hvalue
  simp only [h.span, Span.sized]
  omega

namespace Block

/-! ## Values on lines -/

/-- Lines as they are written from `depth` open brackets on, and the same with the gaps between them
    filled: at the end of each line but the last a bracket is open. -/
inductive Joins : Nat → List Char → List Char → Prop
  | one {depth : Nat} {line : List Char} (hline : '\n' ∉ line) : Joins depth line line
  | more {depth : Nat} {line gap written joined : List Char} (hline : '\n' ∉ line) (hgap : '\n' ∈ gap)
      (hopen : Flow.depthAfter depth none ' ' line ≠ 0)
      (hmore : Joins (Flow.depthAfter depth none ' ' line) written joined) :
      Joins depth (line ++ (gap ++ written)) (line ++ (List.replicate (width gap) ' ' ++ joined))

theorem Joins.filled {depth : Nat} {written joined : List Char} (h : Joins depth written joined) : Filled written joined := by
  induction h with
  | one => exact .refl _
  | more _ hgap _ _ ih => exact (Filled.refl _).append (.gap hgap ih)

/-- A value stands in a document: `whole` is written at its range, and with the gaps between its lines
    filled it is `joined`, in which the value is laid out. Only in brackets it has more than one line. -/
structure Spreads (source blanked : Place) (item : Item) (whole joined : List Char) : Prop where
  shows : source.Shows item.span whole
  blanked : blanked.Shows item.span joined
  joins : Joins 0 whole joined
  opens : '\n' ∈ whole → whole.head? = some '[' ∨ whole.head? = some '\x7b'
  laid : Flow.LaidIn ⟨item.span.start, joined⟩ item

/-- Where a part stands for itself in a value, and neither begins nor ends with a space, it stands in the
    document with its gaps filled. -/
theorem Spreads.stands {source blanked : Place} {item : Item} {whole joined part : List Char} {s : Span}
    (h : Spreads source blanked item whole joined) (hpart : Place.Shows ⟨item.span.start, joined⟩ s part)
    (hinked : Text.Inked part) :
    ∃ written, source.Shows s written ∧ Filled written part ∧ ('\n' ∈ written → '\n' ∈ whole) := by
  obtain ⟨before, after, hjoined, hstart, hstop⟩ := hpart
  obtain rfl : joined = before ++ (part ++ after) := hjoined
  obtain ⟨front, middle, back, rfl, hfront, hfilled⟩ := h.joins.filled.part hinked
  refine ⟨middle, h.shows.trans ⟨front, back, rfl, ?_, ?_⟩, hfilled, fun hbreak => ?_⟩
  · rw [hstart, hfront]
  · rw [hstop, hfilled.width_eq]
  · exact List.mem_append_right _ (List.mem_append_left _ hbreak)

/-- A key of a block stands in a document as it is. -/
structure KeyStands (source : Place) (key : Spanned String) : Prop where
  shows : source.Shows key.span key.value.toList
  newline : '\n' ∉ key.value.toList

/-- A tree of blocks that stands in a document, down to its keys and the values on its lines. -/
abbrev Placed (source blanked : Place) (item : Item) : Prop :=
  item.Laid (KeyStands source) fun value => ∃ whole joined, Spreads source blanked value whole joined

section

variable {source blanked : Place}

/-- Of the lines at `p`, behind the text `line`, some are taken as `found.1`: with the gaps filled it is
    what is written there, and the other lines are ahead. -/
structure Taken (source blanked : Place) (depth : Nat) (line : List Char) (p : Place) (ls : List Line)
    (found : List Char × List Line) : Prop where
  joins : ∃ written behind, p.rest = written ++ behind ∧ Joins depth (line ++ written) (line ++ found.1)
  last : ∀ c ∈ (line ++ found.1).getLast?, Text.isBlank c = false
  joined : Ledger.joined p.pos ls = found.1 ++ Ledger.joined (p.pos + width found.1) found.2
  ahead : Line.Ahead source blanked (p.pos + width found.1) found.2

theorem Taken.nothing {depth : Nat} {line : List Char} {p : Place} {ls : List Line} (hline : Line.Tidy line)
    (hls : Line.Ahead source blanked p.pos ls) : Taken source blanked depth line p ls ([], ls) where
  joins := ⟨[], p.rest, rfl, .one (by simpa using hline.newline)⟩
  last := by simpa using hline.last
  joined := rfl
  ahead := hls

/-- The lines that a collection goes on over. -/
theorem continuation_taken (indent : Nat) {p : Place} {line : List Char} {ls : List Line} {depth : Nat}
    (hline : Line.Tidy line) (hbehind : Line.Behind p ls) (hls : Line.Ahead source blanked p.pos ls) :
    Taken source blanked depth line p ls (continuation indent (Flow.depthAfter depth none ' ' line) p.pos ls) := by
  induction ls generalizing p line depth with
  | nil => exact .nothing hline hls
  | cons l ls ih =>
    rw [continuation]
    dsimp only
    generalize htaken : (Flow.depthAfter depth none ' ' line != 0 && _) = taken
    cases taken with
    | false => exact .nothing hline hls
    | true =>
      obtain ⟨hopen, -⟩ := Bool.and_eq_true_iff.mp htaken
      obtain ⟨gap, rest, hover, hbreak, hopens, hbehind⟩ := hbehind
      have hpos : l.start = p.pos + width gap := hover.pos
      have hgap : l.start - p.pos = width gap := by omega
      have hstop (n : Nat) : p.pos + (width gap + width l.text + n) = l.stop + n := by
        rw [Line.stop]
        omega
      have hmore : Taken source blanked (Flow.depthAfter depth none ' ' line) l.text ⟨l.stop, rest⟩ ls _ :=
        ih (hls.tidy l List.mem_cons_self) hbehind hls.tail
      rw [if_pos rfl, hgap]
      dsimp only at hmore ⊢
      generalize continuation indent _ l.stop ls = found at hmore ⊢
      obtain ⟨⟨written, behind, hrest, hjoins⟩, hlast, hjoined, hahead⟩ := hmore
      refine ⟨⟨gap ++ (l.text ++ written), behind, ?_, ?_⟩, ?_, ?_, ?_⟩
      · rw [hover.rest, show rest = written ++ behind from hrest]
        simp only [List.append_assoc]
      · rw [List.append_assoc]
        exact .more hline.newline hbreak (by simpa using hopen) hjoins
      · have hne : l.text ++ found.1 ≠ [] := List.append_ne_nil_of_left_ne_nil hopens.ne_nil _
        rwa [List.append_assoc, ← List.append_assoc line, List.getLast?_append_of_ne_nil _ hne]
      · rw [Text.width_append, Text.width_append, Text.width_replicate_space, hstop, Ledger.joined, hgap, hjoined]
        simp only [List.append_assoc]
      · rw [Text.width_append, Text.width_append, Text.width_replicate_space, hstop]
        exact hahead

/-- What was read is good, its ranges lie one behind the other from `lo` on, and the lines that are
    left lie behind them. -/
structure Found.Past {α : Type} (source blanked : Place) (lo : Nat) (good : α → Prop) (spans : α → List Span)
    (found : Found α) : Prop where
  value : good found.value
  ahead : ∃ hi, Span.Ordered lo (spans found.value) hi ∧ Line.Ahead source blanked hi found.rest

/-- A value that has nothing but spaces and tabs behind it ends with its line, where that does not end
    with a blank. -/
theorem over_of_leads {p q : Place} (hq : p.Leads q) (hbehind : q.skipSpaces.rest = [])
    (hlast : ∀ c ∈ p.rest.getLast?, Text.isBlank c = false) : p.Over p.rest q := by
  obtain ⟨part, hover⟩ := hq
  have hrest : q.rest = [] := by
    by_contra hne
    have hspace := List.dropWhile_eq_nil_iff.mp hbehind _ (List.getLast_mem hne)
    have hblank : Text.isBlank (q.rest.getLast hne) = false := by
      refine hlast _ ?_
      rw [hover.rest, List.getLast?_append_of_ne_nil _ hne]
      exact List.getLast?_eq_some_getLast hne
    simp only [Bool.or_eq_true, beq_iff_eq] at hspace
    rcases hspace with hspace | hspace <;> rw [hspace] at hblank <;> exact absurd hblank (by decide)
  have hpart : p.rest = part := by rw [hover.rest, hrest, List.append_nil]
  rwa [hpart]

/-- A value is read from its line and those that it goes on over. -/
theorem lineValue_past {l : Line} {rest : List Line} {lo : Nat} (h : Line.Ahead source blanked lo (l :: rest)) (indent : Nat) :
    (lineValue l.text l.start indent rest).Past source blanked l.start (Placed source blanked) fun item => [item.span] := by
  have hline := h.tidy l List.mem_cons_self
  have hleads := h.leads_tail
  obtain ⟨behind, hsource, hopens, hbehind⟩ := h.stand
  unfold lineValue
  dsimp only
  generalize hgoes : (_ && Flow.depthAfter 0 none ' ' l.text != 0) = goesOn
  rw [show l.start + width l.text = l.stop from rfl]
  have hfound : Taken source blanked 0 l.text ⟨l.stop, behind⟩ rest
      (if goesOn then continuation indent (Flow.depthAfter 0 none ' ' l.text) l.stop rest else ([], rest)) := by
    cases goesOn with
    | false => exact .nothing hline h.tail
    | true => exact continuation_taken indent hline hbehind h.tail
  have hbracket : (if goesOn then continuation indent (Flow.depthAfter 0 none ' ' l.text) l.stop rest else ([], rest)).1 = [] ∨
      l.text.head? = some '[' ∨ l.text.head? = some '\x7b' := by
    cases goesOn with
    | false => exact .inl rfl
    | true =>
      obtain ⟨hcollection, -⟩ := Bool.and_eq_true_iff.mp hgoes
      split at hcollection
      · exact .inr (.inl (by simp [*]))
      · exact .inr (.inr (by simp [*]))
      · cases hcollection
  generalize (if goesOn then continuation indent (Flow.depthAfter 0 none ' ' l.text) l.stop rest else ([], rest)) = found
    at hfound hbracket ⊢
  obtain ⟨⟨written, behind', hrest, hjoins⟩, hlast, hjoined, hahead⟩ := hfound
  have hhead : (l.text ++ found.1).head? ≠ some ' ' := by
    rw [List.head?_append_of_ne_nil _ hopens.ne_nil]
    exact hopens.head
  cases hread : Flow.line ⟨l.start, l.text ++ found.1⟩ with
  | error fault =>
    exact ⟨.nothing _, l.stop + width found.1, ⟨Nat.le_refl _, (Nat.le_add_right ..).trans (Nat.le_add_right ..)⟩, hahead⟩
  | ok item =>
    obtain ⟨hlaid, q, hspan, hq, hend⟩ := Flow.line_laid hhead hread
    have hover := over_of_leads hq hend hlast
    have hstart : item.span.start = l.start := hspan ▸ hq.start_between
    have hstop : item.span.stop = l.start + width (l.text ++ found.1) := by
      rw [hspan, hq.stop_between, hover.pos]
    have hspreads : Spreads source blanked item (l.text ++ written) (l.text ++ found.1) := by
      refine ⟨?_, ?_, hjoins, fun hbreak => ?_, ?_⟩
      · rw [hjoins.filled.width_eq] at hstop
        rw [show behind = written ++ behind' from hrest, ← List.append_assoc] at hsource
        exact hsource.shows hstart hstop
      · have hflat : blanked.Leads ⟨l.start, l.text ++ Ledger.joined l.stop rest⟩ := h.flat
        rw [show Ledger.joined l.stop rest = found.1 ++ _ from hjoined, ← List.append_assoc] at hflat
        exact hflat.shows hstart hstop
      · rw [List.head?_append_of_ne_nil _ hopens.ne_nil]
        refine hbracket.resolve_left fun hnothing => ?_
        rw [hnothing, List.append_nil] at hjoins
        have hwidth := hjoins.filled.width_eq
        rw [Text.width_append] at hwidth
        have hwritten : written = [] := by
          by_contra hne
          have hpos := Text.width_pos hne
          omega
        rw [hwritten, List.append_nil] at hbreak
        exact hline.newline hbreak
      · rwa [hstart]
    refine ⟨.leaf ⟨_, _, hspreads⟩, l.stop + width found.1, ⟨hstart.ge, ?_⟩, hahead⟩
    rw [hstop, Text.width_append, Line.stop, Nat.add_assoc]
    exact Nat.le_refl _

/-! ## Blocks -/

theorem Found.Past.mono {α : Type} {lo lo' : Nat} {good : α → Prop} {spans : α → List Span} {found : Found α}
    (h : found.Past source blanked lo good spans) (hlo : lo' ≤ lo) : found.Past source blanked lo' good spans := by
  obtain ⟨hvalue, hi, hordered, hahead⟩ := h
  exact ⟨hvalue, hi, hordered.mono hlo (Nat.le_refl _), hahead⟩

/-- An entry of a block that stands in a document. -/
structure EntryPlaced (source blanked : Place) (e : Item.Entry) : Prop where
  key : KeyStands source e.1
  value : Placed source blanked e.2

variable (source blanked) in
/-- The strict readers of blocks, `n` deep: the ranges of what they return lie one behind the other, and
    the lines that are left lie behind. -/
structure Placing (n : Nat) : Prop where
  block {lo : Nat} {line : Line} {rest : List Line} {found : Found Item} (h : Line.Ahead source blanked lo (line :: rest))
    (hread : Strict.block n line rest = some found) :
    found.Past source blanked line.start (Placed source blanked) fun item => [item.span]
  nested {indent at_ : Nat} {rest : List Line} {found : Found Item} (h : Line.Ahead source blanked at_ rest)
    (hread : Strict.nested n indent at_ rest = some found) :
    found.Past source blanked at_ (Placed source blanked) fun item => [item.span]
  sequence {lo : Nat} {line : Line} {rest : List Line} {found : Found Item} (h : Line.Ahead source blanked lo (line :: rest))
    (hline : line.isSequenceEntry = true) (hread : Strict.sequence n line rest = some found) :
    found.Past source blanked line.start (Placed source blanked) fun item => [item.span]
  firstItem {lo : Nat} {line : Line} {rest : List Line} {found : Found (List Item)}
    (h : Line.Ahead source blanked lo (line :: rest)) (hline : line.isSequenceEntry = true)
    (hread : Strict.sequenceItems n line.indent (line :: rest) = some found) :
    found.Past source blanked (line.start + 1) (fun items => ∀ item ∈ items, Placed source blanked item) (List.map Item.span)
  sequenceItems {lo indent : Nat} {lines : List Line} {found : Found (List Item)} (h : Line.Ahead source blanked lo lines)
    (hread : Strict.sequenceItems n indent lines = some found) :
    found.Past source blanked lo (fun items => ∀ item ∈ items, Placed source blanked item) (List.map Item.span)
  mapping {lo : Nat} {line : Line} {rest : List Line} {found : Found Item} (h : Line.Ahead source blanked lo (line :: rest))
    (hread : Strict.mapping n line rest = some found) :
    found.Past source blanked line.start (Placed source blanked) fun item => [item.span]
  mappingEntries {lo indent : Nat} {seen : List (Spanned String)} {lines : List Line} {found : Found (List Item.Entry)}
    (h : Line.Ahead source blanked lo lines) (hread : Strict.mappingEntries n indent seen lines = some found) :
    found.Past source blanked lo (fun entries => ∀ e ∈ entries, EntryPlaced source blanked e)
      (List.flatMap Item.Entry.spans)

theorem Found.Past.nothing {α : Type} {lo : Nat} {good : α → Prop} {spans : List α → List Span} {lines : List Line}
    {faults : List Diagnostic} (hspans : spans [] = []) (h : Line.Ahead source blanked lo lines) :
    Found.Past source blanked lo (fun found => ∀ a ∈ found, good a) spans ⟨[], lines, faults⟩ :=
  ⟨fun _ ha => absurd ha List.not_mem_nil, lo, by rw [hspans]; exact Nat.le_refl _, h⟩

/-- A list or map that lies around its parts. -/
theorem Found.Past.whole {lo hi stop : Nat} {spans : List Span} {item : Span → Item} {lines : List Line}
    {faults : List Diagnostic} (hitem : ∀ {span : Span}, Span.Ordered span.start spans span.stop → Placed source blanked (item span))
    (hspan : ∀ span, (item span).span = span) (hspans : Span.Ordered lo spans stop ∧ stop ≤ hi)
    (hahead : Line.Ahead source blanked hi lines) :
    Found.Past source blanked lo (Placed source blanked) (fun item => [item.span]) ⟨item (.between lo stop), lines, faults⟩ := by
  obtain ⟨hspans, hstop⟩ := hspans
  have hstart : (Span.between lo stop).start = lo := Nat.min_eq_left hspans.le
  have hend : (Span.between lo stop).stop = stop := Nat.max_eq_right hspans.le
  refine ⟨hitem (by rwa [hstart, hend]), hi, ?_, hahead⟩
  rw [hspan]
  exact ⟨hstart.ge, hend.trans_le hstop⟩

theorem placing_zero : Placing source blanked 0 where
  block _ hread := by
    rw [Strict.block] at hread
    cases hread
  nested _ hread := by
    rw [Strict.nested] at hread
    cases hread
  sequence _ _ hread := by
    rw [Strict.sequence] at hread
    cases hread
  firstItem _ _ hread := by
    rw [Strict.sequenceItems] at hread
    cases hread
  sequenceItems _ hread := by
    rw [Strict.sequenceItems] at hread
    cases hread
  mapping _ hread := by
    rw [Strict.mapping] at hread
    cases hread
  mappingEntries _ hread := by
    rw [Strict.mappingEntries] at hread
    cases hread

section

variable {n lo : Nat} (ih : Placing source blanked n) {line : Line} {rest : List Line}
include ih

theorem block_past {found : Found Item} (h : Line.Ahead source blanked lo (line :: rest))
    (hread : Strict.block (n + 1) line rest = some found) :
    found.Past source blanked line.start (Placed source blanked) fun item => [item.span] := by
  rw [Strict.block] at hread
  split at hread
  · rename_i hline
    exact ih.sequence h hline hread
  split at hread
  · exact ih.mapping h hread
  · rw [Ledger.lineValue_finishes] at hread
    obtain ⟨hvalue, hi, hordered, hahead⟩ := lineValue_past h line.indent
    cases hread
    exact ⟨hvalue, hi, hordered, hahead.skipDeeper line.indent⟩

theorem nested_past {indent at_ : Nat} {found : Found Item} (h : Line.Ahead source blanked at_ rest)
    (hread : Strict.nested (n + 1) indent at_ rest = some found) :
    found.Past source blanked at_ (Placed source blanked) fun item => [item.span] := by
  have hnull : Found.Past source blanked at_ (Placed source blanked) (fun item => [item.span])
      ⟨.null (.point at_), rest, []⟩ := ⟨.nothing _, at_, ⟨Nat.le_refl _, Nat.le_refl _⟩, h⟩
  rw [Strict.nested.eq_def] at hread
  dsimp only at hread
  split at hread
  · split at hread
    · exact (ih.block h hread).mono h.start
    · cases hread
      exact hnull
  · cases hread
    exact hnull

/-- The items end a list where they end, or with the dash of the first one. -/
theorem sequence_past {found : Found Item} (h : Line.Ahead source blanked lo (line :: rest))
    (hline : line.isSequenceEntry = true) (hread : Strict.sequence (n + 1) line rest = some found) :
    found.Past source blanked line.start (Placed source blanked) fun item => [item.span] := by
  rw [Strict.sequence] at hread
  obtain ⟨items, hitems, hread⟩ := Option.bind_eq_some_iff.mp hread
  obtain ⟨hvalues, hi, hordered, hahead⟩ := ih.firstItem h hline hitems
  cases hread
  refine Found.Past.whole (.seq hvalues) (fun _ => rfl) ?_ hahead
  rcases List.eq_nil_or_concat' items.value with hnil | ⟨front, last, hlast⟩
  · rw [hnil] at hordered ⊢
    exact ⟨Nat.le_succ _, hordered⟩
  · have hle := hordered.le
    rw [hlast, List.map_append] at hordered ⊢
    rw [List.getLast?_concat]
    obtain ⟨hbefore, hstop⟩ := hordered.concat
    exact ⟨hbefore.mono (Nat.le_succ _) (Nat.le_max_left ..), Nat.max_le.mpr ⟨hstop, hle⟩⟩

/-- What is behind a dash lies behind it. -/
theorem bulletItem_past {found : Found Item} (h : Line.Ahead source blanked lo (line :: rest))
    (hline : line.isSequenceEntry = true) (hread : Strict.bulletItem n line rest = some found) :
    found.Past source blanked (line.start + 1) (Placed source blanked) fun item => [item.span] := by
  have hdash := Ledger.dash_inner hline
  obtain ⟨gap, -, htext⟩ := hdash.text
  have hsuffix : (Ledger.inner line).text <:+ line.text := by
    rw [htext]
    exact (List.suffix_append gap _).trans (List.suffix_cons '-' _)
  have hstart : line.start + 1 ≤ (Ledger.inner line).start := by
    have hstop := hdash.stop
    have hwidth := congrArg width htext
    have hsize : '-'.utf8Size = 1 := rfl
    rw [Text.width_cons, Text.width_append, hsize] at hwidth
    simp only [Line.stop] at hstop
    omega
  unfold Strict.bulletItem at hread
  dsimp only at hread
  split at hread
  · refine (ih.nested h.tail hread).mono ?_
    have hpos := Text.width_pos h.bounds.2.1
    rw [Line.stop]
    omega
  · rename_i hempty
    have hinner : Line.Ahead source blanked (Ledger.inner line).start (Ledger.inner line :: rest) := by
      refine h.of_suffix hsuffix hdash.stop (Line.opens_trimStart fun hnil => ?_)
      exact hempty (List.isEmpty_iff.mpr hnil)
    split at hread
    · exact (ih.block hinner hread).mono hstart
    · rw [Ledger.lineValue_finishes] at hread
      cases hread
      exact (lineValue_past hinner line.indent).mono hstart

theorem firstItem_past {found : Found (List Item)} (h : Line.Ahead source blanked lo (line :: rest))
    (hline : line.isSequenceEntry = true) (hread : Strict.sequenceItems (n + 1) line.indent (line :: rest) = some found) :
    found.Past source blanked (line.start + 1) (fun items => ∀ item ∈ items, Placed source blanked item)
      (List.map Item.span) := by
  rw [Strict.sequenceItems, if_neg (by simp [hline])] at hread
  obtain ⟨item, hitem, hread⟩ := Option.bind_eq_some_iff.mp hread
  obtain ⟨more, hmore, hread⟩ := Option.bind_eq_some_iff.mp hread
  obtain ⟨hvalue, mid, hordered, hahead⟩ := bulletItem_past ih h hline hitem
  obtain ⟨hvalues, hi, hordered', hahead'⟩ := ih.sequenceItems (hahead.skipDeeper line.indent) hmore
  cases hread
  exact ⟨List.forall_mem_cons.mpr ⟨hvalue, hvalues⟩, hi, hordered.append hordered', hahead'⟩

theorem sequenceItems_past {indent : Nat} {lines : List Line} {found : Found (List Item)}
    (h : Line.Ahead source blanked lo lines) (hread : Strict.sequenceItems (n + 1) indent lines = some found) :
    found.Past source blanked lo (fun items => ∀ item ∈ items, Placed source blanked item) (List.map Item.span) := by
  cases lines with
  | nil =>
    rw [Strict.sequenceItems] at hread
    cases hread
    exact .nothing rfl h
  | cons line rest =>
    by_cases hends : (line.indent != indent || !line.isSequenceEntry) = true
    · rw [Strict.sequenceItems, if_pos hends] at hread
      cases hread
      exact .nothing rfl h
    · obtain ⟨rfl, hline⟩ : line.indent = indent ∧ line.isSequenceEntry = true := by simpa using hends
      exact (firstItem_past ih h hline hread).mono (h.start.trans (Nat.le_succ _))

theorem mapping_past {found : Found Item} (h : Line.Ahead source blanked lo (line :: rest))
    (hread : Strict.mapping (n + 1) line rest = some found) :
    found.Past source blanked line.start (Placed source blanked) fun item => [item.span] := by
  rw [Strict.mapping] at hread
  obtain ⟨entries, hentries, hread⟩ := Option.bind_eq_some_iff.mp hread
  obtain ⟨hvalues, hi, hordered, hahead⟩ := ih.mappingEntries h.first hentries
  cases hread
  refine Found.Past.whole (.map (fun e he => (hvalues e he).key) fun e he => (hvalues e he).value) (fun _ => rfl) ?_ hahead
  rcases List.eq_nil_or_concat' entries.value with hnil | ⟨front, ⟨key, value⟩, hlast⟩
  · rw [hnil] at hordered ⊢
    exact ⟨Nat.le_refl _, hordered⟩
  · have hwithin := hordered.within
    have hspans : (front ++ [(key, value)]).flatMap Item.Entry.spans =
        front.flatMap Item.Entry.spans ++ [key.span] ++ [value.span] := by
      simp [Item.Entry.spans]
    rw [hlast, hspans] at hordered hwithin ⊢
    rw [List.getLast?_concat]
    obtain ⟨hbefore, hstop⟩ := hordered.concat
    exact ⟨hbefore.mono (Nat.le_refl _) (Nat.le_max_left ..),
      Nat.max_le.mpr ⟨hstop, (hwithin key.span (by simp)).stop⟩⟩

omit ih in
/-- A key stands at the front of its line. -/
theorem keyStands {k : Line.Keyed} (h : Line.Ahead source blanked lo (line :: rest)) (hk : line.keyed? = some k) :
    KeyStands source k.key ∧ k.key.span.start = line.start := by
  have hcolon := Ledger.colon_of_keyed? hk
  obtain ⟨before, gap, -, htext⟩ := hcolon.text
  refine ⟨⟨?_, fun hbreak => (h.tidy line List.mem_cons_self).newline ?_⟩, by rw [hcolon.span]; rfl⟩
  · rw [hcolon.span]
    exact h.shows htext
  · rw [htext]
    exact List.mem_append_left _ hbreak

/-- What is behind a key lies behind it. -/
theorem entryItem_past {indent : Nat} {k : Line.Keyed} {found : Found Item} (h : Line.Ahead source blanked lo (line :: rest))
    (hk : line.keyed? = some k) (hread : Strict.entryItem n indent k rest = some found) :
    found.Past source blanked k.key.span.stop (Placed source blanked) fun item => [item.span] := by
  have hcolon := Ledger.colon_of_keyed? hk
  have hstop := (Line.keyed?_on hk).colon
  have hnested {found : Found Item} (hread : Strict.nested n indent (k.key.span.stop + 1) rest = some found) :
      found.Past source blanked k.key.span.stop (Placed source blanked) fun item => [item.span] :=
    (ih.nested (h.tail.mono hstop) hread).mono (Nat.le_succ _)
  unfold Strict.entryItem at hread
  split at hread
  · rename_i hvalue
    obtain ⟨hsuffix, cs, hcs⟩ := Line.keyed?_value hk
    have hopens : Line.Opens k.value := by
      rw [hcs]
      refine Line.opens_trimStart ?_
      rw [← hcs]
      simpa using hvalue
    have hstop : Line.stop ⟨0, k.value, k.valueStart⟩ = line.stop := hcolon.value
    have hahead : Line.Ahead source blanked k.valueStart (⟨0, k.value, k.valueStart⟩ :: rest) :=
      h.of_suffix hsuffix hstop hopens
    rw [Ledger.lineValue_finishes] at hread
    cases hread
    exact (lineValue_past hahead indent).mono hcolon.stop_le
  · split at hread
    · split at hread
      · rename_i next more hlist
        obtain ⟨-, hline⟩ : next.indent = indent ∧ next.isSequenceEntry = true := by simpa using hlist
        refine (ih.sequence h.tail hline hread).mono ?_
        have hnext := h.tail.start
        omega
      · exact hnested hread
    · exact hnested hread

theorem mappingEntries_past {indent : Nat} {seen : List (Spanned String)} {lines : List Line} {found : Found (List Item.Entry)}
    (h : Line.Ahead source blanked lo lines) (hread : Strict.mappingEntries (n + 1) indent seen lines = some found) :
    found.Past source blanked lo (fun entries => ∀ e ∈ entries, EntryPlaced source blanked e)
      (List.flatMap Item.Entry.spans) := by
  cases lines with
  | nil =>
    rw [Strict.mappingEntries] at hread
    cases hread
    exact .nothing rfl h
  | cons line rest =>
    by_cases hends : (line.indent != indent) = true
    · rw [Strict.mappingEntries, if_pos hends] at hread
      cases hread
      exact .nothing rfl h
    rw [Strict.mappingEntries, if_neg hends] at hread
    cases hkeyed : line.keyed? with
    | none =>
      rw [hkeyed] at hread
      obtain ⟨more, hmore, hread⟩ := Option.bind_eq_some_iff.mp hread
      obtain ⟨hvalues, hordered⟩ := (ih.mappingEntries (h.tail.skipDeeper indent) hmore).mono
        (h.start.trans (Nat.le_add_right ..))
      cases hread
      exact ⟨hvalues, hordered⟩
    | some k =>
      rw [hkeyed] at hread
      obtain ⟨item, hitem, hread⟩ := Option.bind_eq_some_iff.mp hread
      obtain ⟨more, hmore, hread⟩ := Option.bind_eq_some_iff.mp hread
      obtain ⟨hvalue, mid, hordered, hahead⟩ := entryItem_past ih h hkeyed hitem
      obtain ⟨hvalues, hi, hordered', hahead'⟩ := ih.mappingEntries (hahead.skipDeeper indent) hmore
      obtain ⟨hkey, hstart⟩ := keyStands h hkeyed
      cases hread
      refine ⟨List.forall_mem_cons.mpr ⟨⟨hkey, hvalue⟩, hvalues⟩, hi, ?_, hahead'⟩
      rw [List.flatMap_cons]
      exact Span.Ordered.append (a := [k.key.span, item.value.span]) ⟨h.start.trans hstart.ge, hordered⟩ hordered'

end

theorem placing (n : Nat) : Placing source blanked n := by
  induction n with
  | zero => exact placing_zero
  | succ n ih =>
    exact {
      block := block_past ih
      nested := nested_past ih
      sequence := sequence_past ih
      firstItem := firstItem_past ih
      sequenceItems := sequenceItems_past ih
      mapping := mapping_past ih
      mappingEntries := mappingEntries_past ih }

end

end Block

/-! ## Documents -/

/-- In a tree that is read the parts of a list or map lie one behind the other in its range, and the
    keys and values are written where their ranges say. -/
theorem Item.read_placed {text : List Char} {root : Item} (h : Item.read text = .ok root) :
    Block.Placed ⟨0, text⟩ ⟨0, Line.flat text⟩ root := by
  have hroot : Block.Placed ⟨0, text⟩ ⟨0, Line.flat text⟩ (Block.ofLines (Line.ofDocument text).1).1 := by
    have hstrict := Ledger.ofLines_finishes (Line.ofDocument text).1
    have hahead := Line.ofDocument_ahead text
    generalize (Line.ofDocument text).1 = lines at hstrict hahead ⊢
    cases lines with
    | nil => exact .nothing 0
    | cons line rest =>
      obtain ⟨found, hfound, heq⟩ := Option.bind_eq_some_iff.mp hstrict
      obtain ⟨hvalue, -⟩ := (Block.placing _).block hahead hfound
      rw [← Option.some_inj.mp heq]
      exact hvalue
  unfold Item.read at h
  dsimp only at h
  split at h
  · cases h
    exact hroot
  · cases h

/-- A scalar stands in a document: what is written at its range is read as the scalar, once the
    gaps in it are filled. -/
def Block.Stands (source : Place) (scalar : Item) : Prop :=
  ∃ written part, source.Shows scalar.span written ∧ Filled written part ∧ Flow.Spells part scalar

/-- Every text of a tree stands in the document that it was read from. -/
theorem Item.read_stands {text : List Char} {root : Item} (h : Item.read text = .ok root) :
    root.Texts (Block.Stands ⟨0, text⟩) := by
  refine (Item.read_placed h).texts ?_
  rintro value ⟨whole, joined, hvalue⟩
  refine (hvalue.laid.texts fun scalar hscalar => hscalar.texts).mono ?_
  rintro scalar ⟨part, hshows, hinked, hspells⟩
  obtain ⟨written, hwritten, hfilled, -⟩ := hvalue.stands hshows hinked
  exact ⟨written, part, hwritten, hfilled, hspells⟩

/-- All parts of a tree that is read lie in the text. In every list and map they lie one behind the
    other in its range, and every key and value is written where its range says. -/
theorem Item.laid_out_in_source {text : List Char} {root : Item} (h : Item.read text = .ok root) :
    root.Fits (width text) ∧ Block.Placed ⟨0, text⟩ ⟨0, Line.flat text⟩ root := by
  have hfits := Item.read_ends text
  rw [h] at hfits
  exact ⟨hfits, Item.read_placed h⟩

theorem Item.laid_out_in_source_list :
    let root := Item.map [(⟨"a", .between 0 1⟩, .seq [.text "b" true (.between 4 7), .null (.between 10 11)] (.between 3 12))]
      (.between 0 12)
    Item.read "a: ['b',\n ~]".toList = .ok root ∧
      root.Fits 12 ∧ Block.Placed ⟨0, "a: ['b',\n ~]".toList⟩ ⟨0, Line.flat "a: ['b',\n ~]".toList⟩ root := by
  intro root
  have hread : Item.read "a: ['b',\n ~]".toList = .ok root := by cbv
  exact ⟨hread, Item.laid_out_in_source hread⟩

end Sketchwork
