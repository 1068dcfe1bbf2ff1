/-
  Sketchwork.Proofs.Outline.Wrapping — the rows of blocks with collections over several lines.

  A text is cut into lines and loses its comments before any bracket is counted. The search for
  comments sees quotes behind a blank, a bracket, a comma or a colon, which is where scalars
  stand, and over a scalar that is `Clear` it passes whole. So what is found of a document are
  its rows, and those of a collection go on with it.

  `Block i first rest l` says that the tree `l` is laid out at column `i` by a line with `first`
  and the lines `rest` below. Wherever a value may stand, beside a key or a dash or on a line of
  its own, there may be a collection that is broken between its tokens (`Wrapped`). How deep its
  further lines have to be depends on the column of what it belongs to: of the dash, or of the
  key, also of a key behind a dash.

  Proved: the first line of a block is a content, those below it are rows (`Block.rows`); every
  layout is such a block (`Layout.Block.written`).
-/
import Sketchwork.Proofs.Outline.Continued
import Sketchwork.Proofs.Outline.Kinds

namespace Sketchwork

namespace Written

open Layout (Content Opener Runs IsRow IsContent Solid spaces opener_of_mem)
open Text (isBlank)

/-! ## Comments -/

/-- The search for comments passes over a scalar and leaves nothing out. -/
def Clear (w : List Char) : Prop :=
  ∀ p, Opener p → ∃ q, Runs p w q

def Token.Clear : Token → Prop
  | word w => Written.Clear w.text
  | _ => True

theorem clear_double {isKey : Bool} (q : Layout.Quoted) : Clear (Word.double q : Word isKey).text :=
  fun _ hp => ⟨_, .quoted q hp⟩

theorem clear_of_chars {w : List Char} (h : ∀ c ∈ w, c ∉ ['"', '\'', '#', '\\', '\n']) : Clear w :=
  fun p _ => Runs.chars h p

theorem flatMap_singleChar {content : List Char} (h : '\'' ∉ content) : content.flatMap singleChar = content := by
  induction content with
  | nil => rfl
  | cons c content ih =>
    have hc : c ≠ '\'' := fun e => h (e ▸ List.mem_cons_self)
    rw [List.flatMap_cons, ih fun hm => h (List.mem_cons_of_mem _ hm), singleChar, if_neg hc]
    rfl

theorem withoutComment_open {p : Char} (hp : Opener p) (r : List Char) :
    Line.withoutComment none p ('\'' :: r) = '\'' :: Line.withoutComment (some '\'') '\'' r := by
  have hopen : (isBlank p || "[\x7b,:".contains p) = true := hp
  rw [Line.withoutComment]
  simp only [hopen]
  simp

theorem withoutComment_single {content : List Char} (h : '\'' ∉ content) (p : Char) (r : List Char) :
    Line.withoutComment (some '\'') p (content ++ '\'' :: r) = content ++ '\'' :: Line.withoutComment none '\'' r := by
  induction content generalizing p with
  | nil => simp [Line.withoutComment]
  | cons c content ih =>
    have hc : c ≠ '\'' := fun e => h (e ▸ List.mem_cons_self)
    rw [List.cons_append, Line.withoutComment]
    simp [hc, ih fun hm => h (List.mem_cons_of_mem _ hm)]

theorem clear_single {isKey : Bool} {content : List Char} (h : '\'' ∉ content) (hbreak : '\n' ∉ content) :
    Clear (Word.single content : Word isKey).text := by
  intro p hp
  refine ⟨'\'', ?_, fun r => ?_⟩
  · simp [Word.text, flatMap_singleChar h, hbreak]
  · rw [Word.text, flatMap_singleChar h, List.cons_append, List.append_assoc, withoutComment_open hp]
    simp [withoutComment_single h]

theorem runs_gap {gap : List Char} (hgap : IsGap gap) (p : Char) : ∃ q, Runs p gap q ∧ (Opener p → Opener q) := by
  induction gap generalizing p with
  | nil => exact ⟨p, .nil p, id⟩
  | cons c gap ih =>
    obtain ⟨q, hq, hopener⟩ := ih (fun x hx => hgap x (List.mem_cons_of_mem _ hx)) c
    rcases hgap c List.mem_cons_self with rfl | rfl
    · exact ⟨q, .cons (by decide) p hq, fun _ => hopener rfl⟩
    · exact ⟨q, .cons (by decide) p hq, fun _ => hopener rfl⟩

/-- The search for comments passes over tokens. -/
theorem runs_spaced {ts : List Token} {s : List Char} (hs : Spaced ts s) (hclear : ∀ t ∈ ts, t.Clear)
    {separated : Bool} (hsep : Separated separated ts) {p : Char} (hp : separated = true → Opener p) :
    ∃ q, Runs p s q := by
  induction hs generalizing separated p with
  | nil => exact ⟨p, .nil p⟩
  | @cons t ts gap s hgap _ ih =>
    obtain ⟨q, hrun, hq⟩ := runs_gap hgap p
    have hmore := fun t ht => hclear t (List.mem_cons_of_mem _ ht)
    cases t with
    | opening b =>
      obtain ⟨q', hq'⟩ := ih hmore hsep (p := b.open_) (fun _ => opener_of_mem (by cases b <;> simp [Bracket.open_]))
      exact ⟨q', hrun.trans (.cons (by cases b <;> decide) q hq')⟩
    | closing b =>
      obtain ⟨q', hq'⟩ := ih hmore hsep (p := b.close) (fun h => absurd h Bool.false_ne_true)
      exact ⟨q', hrun.trans (.cons (by cases b <;> decide) q hq')⟩
    | comma =>
      obtain ⟨q', hq'⟩ := ih hmore hsep (p := ',') (fun _ => opener_of_mem (by simp))
      exact ⟨q', hrun.trans (.cons (by decide) q hq')⟩
    | colon =>
      obtain ⟨q', hq'⟩ := ih hmore hsep (p := ':') (fun _ => opener_of_mem (by simp))
      exact ⟨q', hrun.trans (.cons (by decide) q hq')⟩
    | word w =>
      obtain ⟨q', hw⟩ := hclear (.word w) List.mem_cons_self q (hq (hp hsep.1))
      obtain ⟨q'', hq''⟩ := ih hmore hsep.2 (p := q') (fun h => absurd h Bool.false_ne_true)
      exact ⟨q'', hrun.trans (hw.trans hq'')⟩

/-! ## Rows -/

theorem Token.isBlank_getLast? (t : Token) : t.text ≠ [] ∧ ∀ c ∈ t.text.getLast?, isBlank c = false := by
  cases t with
  | opening b => cases b <;> exact ⟨List.cons_ne_nil _ _, by rintro _ ⟨⟩; rfl⟩
  | closing b => cases b <;> exact ⟨List.cons_ne_nil _ _, by rintro _ ⟨⟩; rfl⟩
  | comma => exact ⟨List.cons_ne_nil _ _, by rintro _ ⟨⟩; rfl⟩
  | colon => exact ⟨List.cons_ne_nil _ _, by rintro _ ⟨⟩; rfl⟩
  | word w =>
    obtain ⟨x, xs, hx, -⟩ := w.exists_cons
    refine ⟨by rw [Token.text, hx]; exact List.cons_ne_nil _ _, ?_⟩
    cases w with
    | double q =>
      rw [Token.text, Word.text, Layout.Quoted.text, ← List.cons_append, List.getLast?_concat]
      rintro _ ⟨⟩
      rfl
    | single content =>
      rw [Token.text, Word.text, ← List.cons_append, List.getLast?_concat]
      rintro _ ⟨⟩
      rfl
    | plain word h => exact h.last

theorem isBlank_getLast?_spaced {ts : List Token} {s : List Char} (hs : Spaced ts s) :
    ∀ c ∈ s.getLast?, isBlank c = false := by
  induction hs with
  | nil => exact fun _ hc => absurd hc (Option.not_mem_none _)
  | @cons t ts gap s _ _ ih =>
    obtain ⟨hne, hlast⟩ := t.isBlank_getLast?
    rw [List.getLast?_append_of_ne_nil _ (by simp [hne])]
    by_cases hs : s = []
    · rw [hs, List.append_nil]
      exact hlast
    · rw [List.getLast?_append_of_ne_nil _ hs]
      exact ih

theorem isRow_of_spaced {ts : List Token} {s : List Char} (hs : Spaced ts s) (hne : ts ≠ []) (hfirst : Solid s)
    (hclear : ∀ t ∈ ts, t.Clear) (hsep : Separated true ts) (hmarker : Line.isMarker s = false) : IsRow s := by
  refine ⟨?_, isBlank_getLast?_spaced hs, hmarker, runs_spaced hs hclear hsep fun _ => rfl⟩
  cases s with
  | nil =>
    have hlen := length_tokens_le hs
    exact absurd (List.length_eq_zero_iff.mp (Nat.le_zero.mp hlen)) hne
  | cons c s => exact ⟨c, s, rfl, hfirst c rfl⟩

theorem isRow_of_goesOn {indent : Nat} {ts : List Token} {ls : List Content} (h : GoesOn indent ts ls)
    (hclear : ∀ t ∈ ts, t.Clear) (hsep : Separated true ts) (hmarker : ∀ l ∈ ls, Line.isMarker l.text = false) :
    ∀ l ∈ ls, IsRow l.text := by
  induction h with
  | done => exact fun _ hl => absurd hl List.not_mem_nil
  | @line l ls a ts hne hs hfirst _ _ ih =>
    obtain ⟨hsepA, hsepTs⟩ := hsep.of_append
    obtain ⟨hmark, hmarks⟩ := List.forall_mem_cons.mp hmarker
    have hrow := isRow_of_spaced hs hne hfirst (fun t ht => hclear t (List.mem_append_left _ ht)) hsepA hmark
    exact List.forall_mem_cons.mpr ⟨hrow, ih (fun t ht => hclear t (List.mem_append_right _ ht)) hsepTs hmarks⟩

/-! ## Broken collections -/

/-- A collection at column `i` that may go on over further lines. -/
structure Wrapped (i : Nat) where
  collection : Collection
  /-- What stands of the collection on the line it begins on. -/
  first : List Char
  lines : List Content
  breaks : Breaks i collection first lines
  steady : ∀ t ∈ collection.tokens, t.Steady
  clear : ∀ t ∈ collection.tokens, t.Clear
  marker : ∀ l ∈ lines, Line.isMarker l.text = false

namespace Wrapped

variable {i : Nat} (w : Wrapped i)

theorem separated : Separated true w.collection.tokens := by
  have h : Separated true (w.collection.tokens ++ []) := w.collection.separated trivial
  rwa [List.append_nil] at h

theorem exists_open : ∃ b r, w.first = Bracket.open_ b :: r := by
  obtain ⟨hc, hne, hs, hfirst, -⟩ := w.breaks
  exact w.collection.exists_open hc hne hs hfirst

theorem isContent : IsContent w.first := by
  obtain ⟨b, r, hopen⟩ := w.exists_open
  obtain ⟨hc, -, hs, -, -⟩ := w.breaks
  obtain ⟨hsep, -⟩ := Separated.of_append (hc ▸ w.separated)
  refine ⟨⟨b.open_, r, hopen, by cases b <;> rfl, by cases b <;> decide⟩, isBlank_getLast?_spaced hs, ?_, fun p hp => ?_⟩
  · rw [hopen]
    cases b <;> exact Layout.isMarker_of_cons (by decide) (by decide)
  · exact runs_spaced hs (fun t ht => w.clear t (hc ▸ List.mem_append_left _ ht)) hsep fun _ => hp

theorem isRow_lines : ∀ l ∈ w.lines, IsRow l.text := by
  obtain ⟨hc, -, -, -, hlines⟩ := w.breaks
  obtain ⟨-, hsep⟩ := Separated.of_append (hc ▸ w.separated)
  exact isRow_of_goesOn hlines (fun t ht => w.clear t (hc ▸ List.mem_append_right _ ht)) hsep w.marker

end Wrapped

/-! ## Blocks -/

/-- A value that belongs to column `i`: its text on the line it begins on, the lines it goes on over,
    and what it stands for. -/
inductive Value (i : Nat) : List Char → List Content → Literal → Prop
  | inline (v : Layout.Inline) : Value i v.text [] v.literal
  | wrapped (w : Wrapped i) : Value i w.first w.lines w.collection.literal

mutual

/-- A block at column `i`: a value, a list or a map. -/
inductive Block : Nat → List Char → List Content → Literal → Prop
  | value {i : Nat} {first : List Char} {rest : List Content} {l : Literal} (h : Value i first rest l) : Block i first rest l
  | list {i : Nat} {first : List Char} {rest : List Content} {ls : List Literal} (h : Bullets i first rest ls) :
      Block i first rest (.list ls)
  | map {i : Nat} {first : List Char} {rest : List Content} {es : List (String × Literal)} (h : Entries i first rest es) :
      Block i first rest (.map es)

/-- The items of a list, with their dashes at column `i`. -/
inductive Bullets : Nat → List Char → List Content → List Literal → Prop
  | one {i : Nat} {first : List Char} {rest : List Content} {l : Literal} (h : Bullet i first rest l) :
      Bullets i first rest [l]
  | cons {i : Nat} {first next : List Char} {rest more : List Content} {l : Literal} {ls : List Literal}
      (h : Bullet i first rest l) (hmore : Bullets i next more ls) : Bullets i first (rest ++ ⟨i, next⟩ :: more) (l :: ls)

/-- A dash with a value, a list or a map behind it, or with a deeper block below. -/
inductive Bullet : Nat → List Char → List Content → Literal → Prop
  | value {i : Nat} {first : List Char} {rest : List Content} {l : Literal} (gap : Nat) (h : Value i first rest l) :
      Bullet i ('-' :: (spaces (gap + 1) ++ first)) rest l
  | list {i : Nat} {first : List Char} {rest : List Content} {ls : List Literal} (gap : Nat)
      (h : Bullets (i + gap + 2) first rest ls) : Bullet i ('-' :: (spaces (gap + 1) ++ first)) rest (.list ls)
  | map {i : Nat} {first : List Char} {rest : List Content} {es : List (String × Literal)} (gap : Nat)
      (h : Entries (i + gap + 2) first rest es) : Bullet i ('-' :: (spaces (gap + 1) ++ first)) rest (.map es)
  | deeper {i : Nat} {first : List Char} {rest : List Content} {l : Literal} (step : Nat)
      (h : Block (i + step + 1) first rest l) : Bullet i ['-'] (⟨i + step + 1, first⟩ :: rest) l

/-- The entries of a map, with their keys at column `i`. -/
inductive Entries : Nat → List Char → List Content → List (String × Literal) → Prop
  | one {i : Nat} {key : Layout.Key} {first : List Char} {rest : List Content} {l : Literal}
      (h : Entry i key first rest l) : Entries i first rest [(key.value, l)]
  | cons {i : Nat} {key : Layout.Key} {first next : List Char} {rest more : List Content} {l : Literal}
      {es : List (String × Literal)} (h : Entry i key first rest l) (hmore : Entries i next more es) :
      Entries i first (rest ++ ⟨i, next⟩ :: more) ((key.value, l) :: es)

/-- A key with a value behind it, a deeper block below it, or a list below it at its own column. -/
inductive Entry : Nat → Layout.Key → List Char → List Content → Literal → Prop
  | value {i : Nat} {first : List Char} {rest : List Content} {l : Literal} (key : Layout.Key) (gap : Nat)
      (h : Value i first rest l) : Entry i key (key.text ++ ':' :: (spaces (gap + 1) ++ first)) rest l
  | deeper {i : Nat} {first : List Char} {rest : List Content} {l : Literal} (key : Layout.Key) (step : Nat)
      (h : Block (i + step + 1) first rest l) : Entry i key (key.text ++ [':']) (⟨i + step + 1, first⟩ :: rest) l
  | list {i : Nat} {first : List Char} {rest : List Content} {ls : List Literal} (key : Layout.Key)
      (h : Bullets i first rest ls) : Entry i key (key.text ++ [':']) (⟨i, first⟩ :: rest) (.list ls)

end

/-! ## What the lines hold -/

/-- The first line is a content, and those below it are rows. -/
structure Rows (first : List Char) (rest : List Content) : Prop where
  first : IsContent first
  rest : ∀ l ∈ rest, IsRow l.text

namespace Rows

variable {first next : List Char} {rest more : List Content}

theorem lines (h : Rows first rest) (i : Nat) : ∀ l ∈ (⟨i, first⟩ :: rest : List Content), IsRow l.text :=
  List.forall_mem_cons.mpr ⟨h.first.isRow, h.rest⟩

theorem append (h : Rows first rest) (hmore : Rows next more) (i : Nat) : Rows first (rest ++ ⟨i, next⟩ :: more) :=
  ⟨h.first, List.forall_mem_append.mpr ⟨h.rest, hmore.lines i⟩⟩

theorem beside (h : Rows first rest) (gap : Nat) : Rows ('-' :: (spaces (gap + 1) ++ first)) rest :=
  ⟨h.first.beside gap, h.rest⟩

end Rows

theorem Value.rows {i : Nat} {first : List Char} {rest : List Content} {l : Literal} (h : Value i first rest l) :
    Rows first rest := by
  cases h with
  | inline v => exact ⟨v.isContent, nofun⟩
  | wrapped w => exact ⟨w.isContent, w.isRow_lines⟩

mutual

theorem Block.rows {i : Nat} {first : List Char} {rest : List Content} {l : Literal} : Block i first rest l → Rows first rest
  | .value h => h.rows
  | .list h => h.rows
  | .map h => h.rows

theorem Bullets.rows {i : Nat} {first : List Char} {rest : List Content} {ls : List Literal} :
    Bullets i first rest ls → Rows first rest
  | .one h => h.rows
  | .cons h hmore => h.rows.append hmore.rows i

theorem Bullet.rows {i : Nat} {first : List Char} {rest : List Content} {l : Literal} : Bullet i first rest l → Rows first rest
  | .value gap h => h.rows.beside gap
  | .list gap h => h.rows.beside gap
  | .map gap h => h.rows.beside gap
  | .deeper _ h => ⟨Layout.isContent_dash, h.rows.lines _⟩

theorem Entries.rows {i : Nat} {first : List Char} {rest : List Content} {es : List (String × Literal)} :
    Entries i first rest es → Rows first rest
  | .one h => h.rows
  | .cons h hmore => h.rows.append hmore.rows i

theorem Entry.rows {i : Nat} {key : Layout.Key} {first : List Char} {rest : List Content} {l : Literal} :
    Entry i key first rest l → Rows first rest
  | .value key gap h => ⟨key.isContent_value gap h.rows.first, h.rows.rest⟩
  | .deeper key _ h => ⟨key.isContent_colon, h.rows.lines _⟩
  | .list key h => ⟨key.isContent_colon, h.rows.lines _⟩

end

/-! ## Kinds of lines -/

section Kinds

variable {i : Nat} {first : List Char} {rest : List Content} {l : Literal}

/-- A value is taken for no key and no dash. -/
theorem Value.plain (h : Value i first rest l) (column start : Nat) :
    Line.keyed? ⟨column, first, start⟩ = none ∧ Line.isSequenceEntry ⟨column, first, start⟩ = false := by
  cases h with
  | inline v => exact ⟨v.keyed?_eq_none column start, v.isSequenceEntry_eq_false column start⟩
  | wrapped w =>
    obtain ⟨b, r, hopen⟩ := w.exists_open
    rw [hopen]
    cases b <;> exact ⟨rfl, rfl⟩

theorem Bullet.isSequenceEntry (h : Bullet i first rest l) (column start : Nat) :
    Line.isSequenceEntry ⟨column, first, start⟩ = true := by
  cases h <;> rfl

theorem Bullets.isSequenceEntry {ls : List Literal} (h : Bullets i first rest ls) (column start : Nat) :
    Line.isSequenceEntry ⟨column, first, start⟩ = true := by
  cases h with
  | one h | cons h => exact h.isSequenceEntry column start

theorem Entry.isSequenceEntry_eq_false {key : Layout.Key} (h : Entry i key first rest l) (column start : Nat) :
    Line.isSequenceEntry ⟨column, first, start⟩ = false := by
  cases h with
  | value | deeper | list => exact key.isSequenceEntry_append ..

/-- The value of a key on its line begins behind the spaces. -/
theorem keyed?_value (key : Layout.Key) (gap : Nat) (hfirst : IsContent first) (column start : Nat) :
    ∃ span s, Line.keyed? ⟨column, key.text ++ ':' :: (spaces (gap + 1) ++ first), start⟩ =
      some ⟨⟨key.value, span⟩, first, s⟩ := by
  obtain ⟨c, cs, rfl, hc, -⟩ := hfirst.cons
  obtain ⟨span, h⟩ := key.keyed?_append (l := ⟨column, _, start⟩) rfl
    (show Line.splitAtColon (':' :: (spaces (gap + 1) ++ c :: cs)) = some ([], spaces gap ++ c :: cs) from rfl)
  rw [Layout.trimStart_spaces gap (.cons hc)] at h
  exact ⟨span, _, h⟩

theorem keyed?_colon (key : Layout.Key) (column start : Nat) :
    ∃ span s, Line.keyed? ⟨column, key.text ++ [':'], start⟩ = some ⟨⟨key.value, span⟩, [], s⟩ := by
  obtain ⟨span, h⟩ := key.keyed?_append (l := ⟨column, _, start⟩) rfl
    (show Line.splitAtColon [':'] = some ([], []) from rfl)
  exact ⟨span, _, h⟩

theorem Entry.isSome_keyed? {key : Layout.Key} (h : Entry i key first rest l) (column start : Nat) :
    (Line.keyed? ⟨column, first, start⟩).isSome = true := by
  cases h with
  | value _ gap h =>
    obtain ⟨span, s, hkeyed⟩ := keyed?_value key gap h.rows.first column start
    exact congrArg Option.isSome hkeyed
  | deeper | list =>
    obtain ⟨span, s, hkeyed⟩ := keyed?_colon key column start
    exact congrArg Option.isSome hkeyed

/-- Entries begin with a key and no dash. -/
theorem Entries.keyed {es : List (String × Literal)} (h : Entries i first rest es) (column start : Nat) :
    (Line.keyed? ⟨column, first, start⟩).isSome = true ∧ Line.isSequenceEntry ⟨column, first, start⟩ = false := by
  cases h with
  | one h | cons h => exact ⟨h.isSome_keyed? column start, h.isSequenceEntry_eq_false column start⟩

end Kinds

end Written

/-! ## Layouts -/

namespace Layout

mutual

theorem Block.written : ∀ (b : Block) (i : Nat), Written.Block i b.first (b.rest i) b.literal
  | .inline v, _ => .value (.inline v)
  | .seq items, i => .list (items.written i)
  | .map entries, i => .map (entries.written i)

theorem Bullets.written : ∀ (items : Bullets) (i : Nat), Written.Bullets i items.first (items.rest i) items.literals
  | .one item, i => .one (item.written i)
  | .cons item more, i => .cons (item.written i) (more.written i)

theorem Bullet.written : ∀ (item : Bullet) (i : Nat), Written.Bullet i item.first (item.rest i) item.literal
  | .beside gap (.inline v), _ => .value gap (.inline v)
  | .beside gap (.seq items), i => .list gap (items.written (i + gap + 2))
  | .beside gap (.map entries), i => .map gap (entries.written (i + gap + 2))
  | .deeper step block, i => .deeper step (block.written (i + step + 1))

theorem Entries.written : ∀ (entries : Entries) (i : Nat),
    Written.Entries i entries.first (entries.rest i) entries.literals
  | .one entry, i => .one (entry.written i)
  | .cons entry more, i => .cons (entry.written i) (more.written i)

theorem Entry.written : ∀ (entry : Entry) (i : Nat), Written.Entry i entry.key entry.first (entry.rest i) entry.literal
  | .inline key gap v, _ => .value key gap (.inline v)
  | .deeper key step block, i => .deeper key step (block.written (i + step + 1))
  | .list key items, i => .list key (items.written i)

end

end Layout

end Sketchwork
