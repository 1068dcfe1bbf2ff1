/-
  Sketchwork.Proofs.Outline.Blocks — the readers of blocks read blocks back.

  Every reader is handed the lines of its part and what comes after. It stops there because the
  next line is not deep enough (`Stops`), or is no item of the list that ends (`EndsList`). The
  readers take turns on a bound: no part needs more than three of them for every character of
  its lines and every line, so `weight` keeps account of what is left.

  Proved: the lines of a block are read as its tree, with nothing to report, whatever the lines
  after it (`Block.reads`).
-/
import Sketchwork.Proofs.Outline.Distinct
import Sketchwork.Proofs.Outline.Wrapping

namespace Sketchwork

namespace Layout

open Text (width)

/-! ## Where a part ends -/

/-- The next line, if there is one, is a content at a column before `bound`. -/
def Stops (bound : Nat) (after : List Line) : Prop :=
  ∀ l ∈ after.head?, l.indent < bound ∧ IsContent l.text

/-- The next line is no item of a list at column `i`. -/
def EndsList (i : Nat) (after : List Line) : Prop :=
  ∀ l ∈ after.head?, l.indent = i → l.isSequenceEntry = false

theorem Stops.mono {a b : Nat} {after : List Line} (h : Stops a after) (hab : a ≤ b) : Stops b after :=
  fun l hl => (h l hl).imp_left (Nat.lt_of_lt_of_le · hab)

theorem Stops.cons {l : Line} {bound : Nat} (h : l.indent < bound) (hl : IsContent l.text) (after : List Line) :
    Stops bound (l :: after) := by
  rintro _ ⟨⟩
  exact ⟨h, hl⟩

theorem Stops.endsList {i : Nat} {after : List Line} (h : Stops i after) : EndsList i after :=
  fun l hl he => absurd (h l hl).1 (Nat.not_lt.mpr (Nat.le_of_eq he.symm))

theorem skipDeeper_eq_self {indent : Nat} {after : List Line} (h : Stops (indent + 1) after) :
    Block.skipDeeper indent after = (after, []) := by
  cases after with
  | nil => rfl
  | cons l after =>
    have hl := (h l rfl).1
    rw [Block.skipDeeper, if_neg (by omega)]

/-- A line that stops a value does not go on with its brackets either. -/
theorem continuation_eq_nil {indent : Nat} {after : List Line} (h : Stops (indent + 1) after) (depth stop : Nat) :
    Block.continuation indent depth stop after = ([], after) := by
  cases after with
  | nil => rfl
  | cons l after =>
    obtain ⟨hindent, hl⟩ := h l rfl
    obtain ⟨c, cs, hc, -, hbracket⟩ := hl.cons
    have hdeep : decide (indent < l.indent) = false := decide_eq_false (by omega)
    rw [Block.continuation]
    refine if_neg fun hgoes => ?_
    simp only [hdeep, Bool.false_or, Bool.and_eq_true] at hgoes
    obtain ⟨-, hcloses⟩ := hgoes
    split at hcloses
    · rename_i he; rw [hc] at he; cases he; simp at hbracket
    · rename_i he; rw [hc] at he; cases he; simp at hbracket
    · cases hcloses

theorem lineValue_text (v : Inline) (hd : v.literal.Distinct) (start : Nat) {indent : Nat} {after : List Line}
    (h : Stops (indent + 1) after) :
    ∃ item, Block.lineValue v.text start indent after = ⟨item, after, []⟩ ∧ item.literal = v.literal := by
  obtain ⟨item, hline, hl⟩ := line_text v start
  refine ⟨item, ?_, hl⟩
  unfold Block.lineValue
  simp only [continuation_eq_nil h, ite_self, List.append_nil, hline, Flow.repeatedKeys_eq_nil item (hl ▸ hd)]

/-! ## One item, one entry -/

/-- What is read behind and below a dash. -/
def bulletItem (n indent : Nat) (line : Line) (rest : List Line) : Block.Found Item :=
  let content := Text.trimStart (line.text.drop 1)
  let column := width line.text - width content
  let inner : Line := ⟨indent + column, content, line.start + column⟩
  if content.isEmpty then Block.nested n indent line.stop rest
  else if inner.isSequenceEntry || inner.keyed?.isSome then Block.block n inner rest
  else Block.lineValue content inner.start indent rest

/-- What is read behind and below a key. -/
def entryItem (n indent : Nat) (keyed : Line.Keyed) (rest : List Line) : Block.Found Item :=
  if !keyed.value.isEmpty then Block.lineValue keyed.value keyed.valueStart indent rest
  else match rest with
    | next :: more =>
      if next.indent == indent && next.isSequenceEntry then Block.sequence n next more
      else Block.nested n indent (keyed.key.span.stop + 1) rest
    | [] => Block.nested n indent (keyed.key.span.stop + 1) rest

variable {n i start : Nat} {line : Line} {rest after : List Line} {item : Item}

theorem sequenceItems_item (hindent : line.indent = i) (hline : line.isSequenceEntry = true) :
    Block.sequenceItems (n + 1) i (line :: rest) =
      let item := bulletItem n i line rest
      let skipped := Block.skipDeeper i item.rest
      let more := Block.sequenceItems n i skipped.1
      ⟨item.value :: more.value, more.rest, item.faults ++ skipped.2 ++ more.faults⟩ := by
  rw [Block.sequenceItems, if_neg (by simp [hindent, hline])]
  rfl

theorem sequenceItems_cons (hitem : bulletItem n i line rest = ⟨item, after, []⟩) (hafter : Stops (i + 1) after)
    (hindent : line.indent = i) (hline : line.isSequenceEntry = true) :
    Block.sequenceItems (n + 1) i (line :: rest) =
      let more := Block.sequenceItems n i after
      ⟨item :: more.value, more.rest, more.faults⟩ := by
  rw [sequenceItems_item hindent hline, hitem]
  dsimp only
  rw [skipDeeper_eq_self hafter]
  rfl

theorem sequenceItems_of_endsList (hend : EndsList i after) : Block.sequenceItems n i after = ⟨[], after, []⟩ := by
  cases n with
  | zero => rw [Block.sequenceItems]
  | succ n =>
    cases after with
    | nil => rw [Block.sequenceItems]
    | cons l after =>
      have hl : (l.indent != i || !l.isSequenceEntry) = true := by
        by_cases he : l.indent = i
        · simp [hend l rfl he]
        · simp [he]
      rw [Block.sequenceItems, if_pos hl]

theorem mappingEntries_entry {seen : List (Spanned String)} {keyed : Line.Keyed} (hindent : line.indent = i)
    (hline : line.keyed? = some keyed) :
    Block.mappingEntries (n + 1) i seen (line :: rest) =
      let item := entryItem n i keyed rest
      let skipped := Block.skipDeeper i item.rest
      let more := Block.mappingEntries n i (seen ++ [keyed.key]) skipped.1
      ⟨(keyed.key, item.value) :: more.value, more.rest,
        item.faults ++ (Flow.duplicate? seen keyed.key).toList ++ skipped.2 ++ more.faults⟩ := by
  rw [Block.mappingEntries.eq_def]
  dsimp only
  rw [if_neg (by simp [hindent]), hline]
  rfl

theorem mappingEntries_cons {seen : List (Spanned String)} {keyed : Line.Keyed}
    (hitem : entryItem n i keyed rest = ⟨item, after, []⟩) (hafter : Stops (i + 1) after)
    (hindent : line.indent = i) (hline : line.keyed? = some keyed) (hkey : keyed.key.value ∉ seen.map (·.value)) :
    Block.mappingEntries (n + 1) i seen (line :: rest) =
      let more := Block.mappingEntries n i (seen ++ [keyed.key]) after
      ⟨(keyed.key, item) :: more.value, more.rest, more.faults⟩ := by
  rw [mappingEntries_entry hindent hline, hitem]
  dsimp only
  rw [skipDeeper_eq_self hafter, Flow.duplicate?_eq_none hkey]
  rfl

theorem mappingEntries_of_stops (hafter : Stops i after) (seen : List (Spanned String)) :
    Block.mappingEntries n i seen after = ⟨[], after, []⟩ := by
  cases n with
  | zero => rw [Block.mappingEntries]
  | succ n =>
    cases after with
    | nil => rw [Block.mappingEntries]
    | cons l after =>
      have hl := (hafter l rfl).1
      rw [Block.mappingEntries, if_pos (by simp; omega)]

theorem sequence_of_items {items : List Item} (h : Block.sequenceItems n i (line :: rest) = ⟨items, after, []⟩)
    (hindent : line.indent = i) : ∃ span, Block.sequence (n + 1) line rest = ⟨.seq items span, after, []⟩ := by
  rw [Block.sequence, hindent, h]
  exact ⟨_, rfl⟩

theorem mapping_of_entries {entries : List Item.Entry}
    (h : Block.mappingEntries n i [] (line :: rest) = ⟨entries, after, []⟩) (hindent : line.indent = i) :
    ∃ span, Block.mapping (n + 1) line rest = ⟨.map entries span, after, []⟩ := by
  rw [Block.mapping, hindent, h]
  exact ⟨_, rfl⟩

/-- A block that begins with a dash is a list. -/
theorem block_of_items {items : List Item} (h : Block.sequenceItems n line.indent (line :: rest) = ⟨items, after, []⟩)
    (hline : line.isSequenceEntry = true) : ∃ span, Block.block (n + 2) line rest = ⟨.seq items span, after, []⟩ := by
  obtain ⟨span, hseq⟩ := sequence_of_items h rfl
  exact ⟨span, by rw [Block.block, if_pos hline, hseq]⟩

/-- A block that begins with a key is a map. -/
theorem block_of_entries {entries : List Item.Entry}
    (h : Block.mappingEntries n line.indent [] (line :: rest) = ⟨entries, after, []⟩) (hkeyed : line.keyed?.isSome = true)
    (hline : line.isSequenceEntry = false) : ∃ span, Block.block (n + 2) line rest = ⟨.map entries span, after, []⟩ := by
  obtain ⟨span, hmap⟩ := mapping_of_entries h rfl
  exact ⟨span, by rw [Block.block, if_neg (by simp [hline]), if_pos hkeyed, hmap]⟩

/-! ## What is left of the bound -/

/-- The characters of lines and one more for every line. -/
@[simp] def weight : List Content → Nat
  | [] => 0
  | l :: ls => l.text.length + 1 + weight ls

@[simp] theorem weight_append (a b : List Content) : weight (a ++ b) = weight a + weight b := by
  induction a with
  | nil => simp
  | cons l a ih => simp [ih, Nat.add_assoc]

theorem depthBound_eq (lines : List Line) : Block.depthBound lines = 6 * (weight (lines.map ofLine) + 1) := by
  have hfold (n : Nat) : lines.foldl (fun n l => n + l.text.length + 1) n = n + weight (lines.map ofLine) := by
    induction lines generalizing n with
    | nil => rfl
    | cons l lines ih =>
      rw [List.foldl_cons, ih, List.map_cons, weight]
      simp only [ofLine]
      omega
  rw [Block.depthBound, hfold]
  omega

/-! ## Blocks -/

theorem exists_of_map_eq_cons {ls : List Line} {t : List Char} {cs : List Content} (h : ls.map ofLine = ⟨i, t⟩ :: cs) :
    ∃ start ls', ls = ⟨i, t, start⟩ :: ls' ∧ ls'.map ofLine = cs := by
  obtain ⟨l, ls', rfl, hl, hls⟩ := List.map_eq_cons_iff.mp h
  cases hl
  exact ⟨l.start, ls', rfl, hls⟩

theorem nested_cons (hdeep : i < line.indent) (at_ : Nat) :
    Block.nested (n + 1) i at_ (line :: rest) = Block.block n line rest := by
  rw [Block.nested, if_pos hdeep]

/-- Behind a dash that has something behind it, a list or a map goes on as a block at its own column. -/
theorem bulletItem_beside {first : List Char} (hfirst : IsContent first) (gap n i start : Nat) (rest : List Line) :
    ∃ s, bulletItem n i ⟨i, '-' :: (spaces (gap + 1) ++ first), start⟩ rest =
      if Line.isSequenceEntry ⟨i + gap + 2, first, s⟩ || (Line.keyed? ⟨i + gap + 2, first, s⟩).isSome then
        Block.block n ⟨i + gap + 2, first, s⟩ rest
      else Block.lineValue first s i rest := by
  obtain ⟨c, cs, rfl, hb, -⟩ := hfirst.cons
  have htrim : Text.trimStart (spaces (gap + 1) ++ c :: cs) = c :: cs := trimStart_spaces (gap + 1) (.cons hb)
  have hspaces (k : Nat) : width (spaces k) = k := by
    induction k with
    | zero => rfl
    | succ k ih => rw [spaces_succ, Text.width_cons, ih, Nat.add_comm]; rfl
  have hcolumn : width ('-' :: (spaces (gap + 1) ++ c :: cs)) - width (c :: cs) = gap + 2 := by
    rw [Text.width_cons, Text.width_append, hspaces, show '-'.utf8Size = 1 from rfl]
    omega
  refine ⟨start + (gap + 2), ?_⟩
  unfold bulletItem
  simp only [List.drop_succ_cons, List.drop_zero, htrim, hcolumn]
  rw [if_neg (by simp)]
  rfl

end Layout

namespace Written

open Layout (Content IsContent Stops EndsList ofLine spaces weight bulletItem entryItem exists_of_map_eq_cons)

theorem Value.reads {i : Nat} {first : List Char} {rest : List Content} {l : Literal} (h : Value i first rest l)
    {ls after : List Line} (hls : ls.map ofLine = rest) (hafter : Stops (i + 1) after) (hd : l.Distinct) (start : Nat) :
    ∃ item, Block.lineValue first start i (ls ++ after) = ⟨item, after, []⟩ ∧ item.literal = l := by
  cases h with
  | inline v =>
    obtain rfl := List.map_eq_nil_iff.mp hls
    exact Layout.lineValue_text v hd start hafter
  | wrapped w =>
    have hbreaks : Breaks i w.collection w.first (ls.map ofLine) := by
      rw [hls]
      exact w.breaks
    obtain ⟨item, hitem, hl⟩ := lineValue_of_breaks w.steady hbreaks start after
    rw [Flow.repeatedKeys_eq_nil item (hl ▸ hd)] at hitem
    exact ⟨item, hitem, hl⟩

/-- What belongs to the same column stops a value. -/
theorem Rows.stops {first : List Char} {rest : List Content} (h : Rows first rest) (i start : Nat) (after : List Line) :
    Stops (i + 1) (⟨i, first, start⟩ :: after) :=
  .cons (Nat.lt_succ_self i) h.first after

theorem Entries.endsList {i : Nat} {first : List Char} {rest : List Content} {es : List (String × Literal)}
    (h : Entries i first rest es) (start : Nat) (after : List Line) : EndsList i (⟨i, first, start⟩ :: after) := by
  rintro _ ⟨⟩ -
  exact (h.keyed i start).2

mutual

theorem Block.reads {i : Nat} {first : List Char} {rest : List Content} {l : Literal} : Block i first rest l →
    ∀ (start : Nat) {n : Nat} {ls after : List Line}, ls.map ofLine = rest → Stops i after → l.Distinct →
    3 * weight (⟨i, first⟩ :: rest) ≤ n →
    ∃ item, Block.block n ⟨i, first, start⟩ (ls ++ after) = ⟨item, after, []⟩ ∧ item.literal = l
  | .value h, start, n, ls, after, hls, hafter, hd, hn => by
    obtain ⟨n, rfl⟩ : ∃ m, n = m + 1 := ⟨n - 1, by simp at hn; omega⟩
    have hstop := hafter.mono (Nat.le_succ i)
    obtain ⟨hkeyed, hentry⟩ := h.plain i start
    obtain ⟨item, hvalue, hl⟩ := h.reads hls hstop hd start
    refine ⟨item, ?_, hl⟩
    rw [Block.block, if_neg (by simp [hentry]), if_neg (by simp [hkeyed])]
    simp only [hvalue, Layout.skipDeeper_eq_self hstop]
    rfl
  | .list h, start, n, ls, after, hls, hafter, hd, hn => by
    obtain ⟨n, rfl⟩ : ∃ m, n = m + 2 := ⟨n - 2, by simp at hn; omega⟩
    obtain ⟨items, hitems, hl⟩ := h.reads start (n := n) hls (hafter.mono (Nat.le_succ i)) hafter.endsList hd hn
    obtain ⟨span, hseq⟩ := Layout.block_of_items hitems (h.isSequenceEntry i start)
    exact ⟨.seq items span, hseq, by rw [Item.literal, Layout.literals_eq_map, hl]⟩
  | .map h, start, n, ls, after, hls, hafter, hd, hn => by
    obtain ⟨n, rfl⟩ : ∃ m, n = m + 2 := ⟨n - 2, by simp at hn; omega⟩
    obtain ⟨entries, hentries, hl⟩ := h.reads [] start (n := n) hls hafter hd.2 hd.1 hn
    obtain ⟨hkeyed, hentry⟩ := h.keyed i start
    obtain ⟨span, hmap⟩ := Layout.block_of_entries hentries hkeyed hentry
    exact ⟨.map entries span, hmap, by rw [Item.literal, Layout.literalEntries_eq_map, hl]⟩

theorem Bullets.reads {i : Nat} {first : List Char} {rest : List Content} {items : List Literal} : Bullets i first rest items →
    ∀ (start : Nat) {n : Nat} {ls after : List Line}, ls.map ofLine = rest → Stops (i + 1) after → EndsList i after →
    Literal.AllDistinct items → 3 * weight (⟨i, first⟩ :: rest) ≤ n + 2 →
    ∃ its, Block.sequenceItems n i (⟨i, first, start⟩ :: (ls ++ after)) = ⟨its, after, []⟩ ∧ its.map Item.literal = items
  | .one h, start, n, ls, after, hls, hafter, hend, hd, hn => by
    obtain ⟨n, rfl⟩ : ∃ m, n = m + 1 := ⟨n - 1, by simp at hn; omega⟩
    obtain ⟨item, hitem, hl⟩ := h.reads start (n := n) hls hafter hd.1 hn
    refine ⟨[item], ?_, by simp [hl]⟩
    refine (Layout.sequenceItems_cons hitem hafter rfl (h.isSequenceEntry i start)).trans ?_
    rw [Layout.sequenceItems_of_endsList hend]
  | .cons h hmore, start, n, ls, after, hls, hafter, hend, hd, hn => by
    obtain ⟨n, rfl⟩ : ∃ m, n = m + 1 := ⟨n - 1, by simp at hn; omega⟩
    obtain ⟨ls₁, ls₂, rfl, hls₁, hls₂⟩ := List.map_eq_append_iff.mp hls
    obtain ⟨start', ls₂, rfl, hrest⟩ := exists_of_map_eq_cons hls₂
    have hstop := hmore.rows.stops i start' (ls₂ ++ after)
    obtain ⟨item, hitem, hl⟩ := h.reads start (n := n) hls₁ hstop hd.1 (by simp at hn ⊢; omega)
    obtain ⟨its, hits, hls⟩ := hmore.reads start' (n := n) hrest hafter hend hd.2 (by simp at hn ⊢; omega)
    refine ⟨item :: its, ?_, by simp [hl, hls]⟩
    rw [List.append_assoc]
    refine (Layout.sequenceItems_cons hitem hstop rfl (h.isSequenceEntry i start)).trans ?_
    rw [hits]

theorem Bullet.reads {i : Nat} {first : List Char} {rest : List Content} {l : Literal} : Bullet i first rest l →
    ∀ (start : Nat) {n : Nat} {ls after : List Line}, ls.map ofLine = rest → Stops (i + 1) after → l.Distinct →
    3 * weight (⟨i, first⟩ :: rest) ≤ n + 3 →
    ∃ item, bulletItem n i ⟨i, first, start⟩ (ls ++ after) = ⟨item, after, []⟩ ∧ item.literal = l
  | .value gap h, start, n, ls, after, hls, hafter, hd, _ => by
    obtain ⟨s, hbeside⟩ := Layout.bulletItem_beside h.rows.first gap n i start (ls ++ after)
    obtain ⟨hkeyed, hentry⟩ := h.plain (i + gap + 2) s
    obtain ⟨item, hvalue, hl⟩ := h.reads hls hafter hd s
    refine ⟨item, ?_, hl⟩
    rw [hbeside, if_neg (by simp [hkeyed, hentry]), hvalue]
  | .list gap h, start, n, ls, after, hls, hafter, hd, hn => by
    obtain ⟨n, rfl⟩ : ∃ m, n = m + 2 := ⟨n - 2, by simp at hn; omega⟩
    obtain ⟨s, hbeside⟩ := Layout.bulletItem_beside h.rows.first gap (n + 2) i start (ls ++ after)
    have hstop : Stops (i + gap + 2) after := hafter.mono (by omega)
    have hdash := h.isSequenceEntry (i + gap + 2) s
    obtain ⟨items, hitems, hl⟩ := h.reads s (n := n) hls (hstop.mono (Nat.le_succ _)) hstop.endsList hd
      (by simp at hn ⊢; omega)
    obtain ⟨span, hseq⟩ := Layout.block_of_items hitems hdash
    refine ⟨.seq items span, ?_, by rw [Item.literal, Layout.literals_eq_map, hl]⟩
    rw [hbeside, if_pos (by simp [hdash]), hseq]
  | .map gap h, start, n, ls, after, hls, hafter, hd, hn => by
    obtain ⟨n, rfl⟩ : ∃ m, n = m + 2 := ⟨n - 2, by simp at hn; omega⟩
    obtain ⟨s, hbeside⟩ := Layout.bulletItem_beside h.rows.first gap (n + 2) i start (ls ++ after)
    obtain ⟨hkeyed, hentry⟩ := h.keyed (i + gap + 2) s
    obtain ⟨entries, hentries, hl⟩ := h.reads [] s (n := n) hls (hafter.mono (by omega)) hd.2 hd.1 (by simp at hn ⊢; omega)
    obtain ⟨span, hmap⟩ := Layout.block_of_entries hentries hkeyed hentry
    refine ⟨.map entries span, ?_, by rw [Item.literal, Layout.literalEntries_eq_map, hl]⟩
    rw [hbeside, if_pos (by simp [hkeyed]), hmap]
  | .deeper step h, start, n, ls, after, hls, hafter, hd, hn => by
    obtain ⟨n, rfl⟩ : ∃ m, n = m + 1 := ⟨n - 1, by simp at hn; omega⟩
    obtain ⟨s, ls, rfl, hrest⟩ := exists_of_map_eq_cons hls
    obtain ⟨item, hitem, hl⟩ := h.reads s (n := n) hrest (hafter.mono (by omega)) hd (by simp at hn ⊢; omega)
    exact ⟨item, (Layout.nested_cons (show i < i + step + 1 by omega) _).trans hitem, hl⟩

theorem Entries.reads {i : Nat} {first : List Char} {rest : List Content} {es : List (String × Literal)} :
    Entries i first rest es → ∀ (seen : List (Spanned String)) (start : Nat) {n : Nat} {ls after : List Line},
    ls.map ofLine = rest → Stops i after → Literal.EntriesDistinct es → (seen.map (·.value) ++ es.map (·.1)).Nodup →
    3 * weight (⟨i, first⟩ :: rest) ≤ n + 2 →
    ∃ entries, Block.mappingEntries n i seen (⟨i, first, start⟩ :: (ls ++ after)) = ⟨entries, after, []⟩ ∧
      (entries.map fun e => (e.1.value, e.2.literal)) = es
  | .one h, seen, start, n, ls, after, hls, hafter, hd, hkeys, hn => by
    obtain ⟨n, rfl⟩ : ∃ m, n = m + 1 := ⟨n - 1, by simp at hn; omega⟩
    have hstop := hafter.mono (Nat.le_succ i)
    obtain ⟨keyed, item, hkeyed, hkey, hitem, hl⟩ := h.reads start (n := n) hls hstop hafter.endsList hd.1 hn
    have hnew : keyed.key.value ∉ seen.map (·.value) := hkey ▸ Flow.not_mem_seen hkeys
    refine ⟨[(keyed.key, item)], ?_, by simp [hkey, hl]⟩
    refine (Layout.mappingEntries_cons hitem hstop rfl hkeyed hnew).trans ?_
    rw [Layout.mappingEntries_of_stops hafter]
  | .cons h hmore, seen, start, n, ls, after, hls, hafter, hd, hkeys, hn => by
    obtain ⟨n, rfl⟩ : ∃ m, n = m + 1 := ⟨n - 1, by simp at hn; omega⟩
    obtain ⟨ls₁, ls₂, rfl, hls₁, hls₂⟩ := List.map_eq_append_iff.mp hls
    obtain ⟨start', ls₂, rfl, hrest⟩ := exists_of_map_eq_cons hls₂
    have hstop := hmore.rows.stops i start' (ls₂ ++ after)
    have hend := hmore.endsList start' (ls₂ ++ after)
    obtain ⟨keyed, item, hkeyed, hkey, hitem, hl⟩ := h.reads start (n := n) hls₁ hstop hend hd.1 (by simp at hn ⊢; omega)
    have hnew : keyed.key.value ∉ seen.map (·.value) := hkey ▸ Flow.not_mem_seen hkeys
    obtain ⟨entries, hentries, hls⟩ := hmore.reads (seen ++ [keyed.key]) start' (n := n) hrest hafter hd.2
      (by simpa [hkey] using hkeys) (by simp at hn ⊢; omega)
    refine ⟨(keyed.key, item) :: entries, ?_, by simp [hkey, hl, hls]⟩
    rw [List.append_assoc]
    refine (Layout.mappingEntries_cons hitem hstop rfl hkeyed hnew).trans ?_
    rw [hentries]

theorem Entry.reads {i : Nat} {key : Layout.Key} {first : List Char} {rest : List Content} {l : Literal} :
    Entry i key first rest l → ∀ (start : Nat) {n : Nat} {ls after : List Line}, ls.map ofLine = rest →
    Stops (i + 1) after → EndsList i after → l.Distinct → 3 * weight (⟨i, first⟩ :: rest) ≤ n + 3 →
    ∃ keyed item, Line.keyed? ⟨i, first, start⟩ = some keyed ∧ keyed.key.value = key.value ∧
      entryItem n i keyed (ls ++ after) = ⟨item, after, []⟩ ∧ item.literal = l
  | .value key gap h, start, n, ls, after, hls, hafter, _, hd, _ => by
    obtain ⟨c, cs, hc, -⟩ := h.rows.first.cons
    obtain ⟨span, s, hkeyed⟩ := keyed?_value key gap h.rows.first i start
    obtain ⟨item, hvalue, hl⟩ := h.reads hls hafter hd s
    refine ⟨_, item, hkeyed, rfl, ?_, hl⟩
    unfold Layout.entryItem
    rw [if_pos (by simp [hc])]
    exact hvalue
  | .deeper key step h, start, n, ls, after, hls, hafter, _, hd, hn => by
    obtain ⟨n, rfl⟩ : ∃ m, n = m + 1 := ⟨n - 1, by simp at hn; omega⟩
    obtain ⟨start', ls, rfl, hrest⟩ := exists_of_map_eq_cons hls
    obtain ⟨span, s, hkeyed⟩ := keyed?_colon key i start
    obtain ⟨item, hitem, hl⟩ := h.reads start' (n := n) hrest (hafter.mono (by omega)) hd (by simp at hn ⊢; omega)
    refine ⟨_, item, hkeyed, rfl, ?_, hl⟩
    unfold Layout.entryItem
    rw [if_neg (by simp)]
    show (if _ then _ else _) = _
    rw [if_neg (by simp; omega)]
    exact (Layout.nested_cons (show i < i + step + 1 by omega) _).trans hitem
  | .list key h, start, n, ls, after, hls, hafter, hend, hd, hn => by
    obtain ⟨n, rfl⟩ : ∃ m, n = m + 1 := ⟨n - 1, by simp at hn; omega⟩
    obtain ⟨start', ls, rfl, hrest⟩ := exists_of_map_eq_cons hls
    obtain ⟨span, s, hkeyed⟩ := keyed?_colon key i start
    obtain ⟨items, hitems, hl⟩ := h.reads start' (n := n) hrest hafter hend hd (by simp at hn ⊢; omega)
    obtain ⟨range, hseq⟩ := Layout.sequence_of_items hitems rfl
    refine ⟨_, .seq items range, hkeyed, rfl, ?_, by rw [Item.literal, Layout.literals_eq_map, hl]⟩
    unfold Layout.entryItem
    rw [if_neg (by simp)]
    show (if _ then _ else _) = _
    rw [if_pos (by simp [h.isSequenceEntry])]
    exact hseq

end

end Written

end Sketchwork
