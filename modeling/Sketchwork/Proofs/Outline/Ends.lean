/-
  Sketchwork.Proofs.Outline.Ends — what is read on a line, and what is reported there, ends with it.

  Every place that a reader comes to leaves the end of the text where it is, so a range
  between two of them ends by then. A range of one byte does as well where there is something
  left to read. The colon behind a key is looked for at the end too, and it is the only thing
  whose absence is reported one byte behind it (`Diagnostic.Ends`).

  Proved: values read on a line and all their parts end where the text does, and so does what
  is reported of it, but for a missing colon (`line_ends`, `repeatedKeys_fit`).
-/
import Mathlib.Data.List.DropRight
import Sketchwork.Outline.Flow
import Sketchwork.Proofs.Text.Places

namespace Sketchwork

open Text (width)

/-! ## Ranges that end by an offset -/

/-- No label goes on behind `hi`. -/
structure Diagnostic.Fits (hi : Nat) (d : Diagnostic) : Prop where
  span : d.span.stop ≤ hi
  elsewhere : ∀ e ∈ d.fault.elsewhere, e.span.stop ≤ hi

/-- No label goes on behind `hi`, or a colon was missing there. -/
def Diagnostic.Ends (hi : Nat) (d : Diagnostic) : Prop :=
  d.Fits hi ∨ d.fault = .flowColon ∧ d.span = .sized hi 1

/-- A key, with room for what it says. -/
structure Spanned.Fits (hi : Nat) (key : Spanned String) : Prop where
  span : key.span.stop ≤ hi
  content : key.span.start + width key.value.toList ≤ hi

/-- A value that ends by `hi` with all its parts, and with room for what its texts say. -/
inductive Item.Fits (hi : Nat) : Item → Prop
  | null {span : Span} (h : span.stop ≤ hi) : Fits hi (.null span)
  | bool {b : Bool} {span : Span} (h : span.stop ≤ hi) : Fits hi (.bool b span)
  | number {x : Float} {span : Span} (h : span.stop ≤ hi) : Fits hi (.number x span)
  | text {s : String} {quoted : Bool} {span : Span} (h : span.stop ≤ hi)
      (content : (Item.text s quoted span).contentStart + width s.toList ≤ hi) : Fits hi (.text s quoted span)
  | seq {items : List Item} {span : Span} (h : span.stop ≤ hi) (hitems : ∀ item ∈ items, Fits hi item) :
      Fits hi (.seq items span)
  | map {entries : List Item.Entry} {span : Span} (h : span.stop ≤ hi) (hkeys : ∀ entry ∈ entries, entry.1.Fits hi)
      (hvalues : ∀ entry ∈ entries, Fits hi entry.2) : Fits hi (.map entries span)

theorem Diagnostic.Fits.of_span {hi : Nat} {fault : Fault} {span : Span} (h : span.stop ≤ hi)
    (hfault : fault.elsewhere = none) : Diagnostic.Fits hi ⟨fault, span⟩ := by
  refine ⟨h, ?_⟩
  rw [hfault]
  exact fun _ he => absurd he (Option.not_mem_none _)

theorem Diagnostic.Fits.mono {lo hi : Nat} {d : Diagnostic} (h : d.Fits lo) (hle : lo ≤ hi) : d.Fits hi :=
  ⟨Nat.le_trans h.span hle, fun e he => Nat.le_trans (h.elsewhere e he) hle⟩

theorem Diagnostic.Ends.mono {lo hi : Nat} {d : Diagnostic} (h : d.Ends lo) (hle : lo ≤ hi) : d.Ends hi := by
  rcases h with h | ⟨hfault, hspan⟩
  · exact .inl (h.mono hle)
  · by_cases heq : lo = hi
    · subst heq
      exact .inr ⟨hfault, hspan⟩
    · obtain ⟨fault, span⟩ := d
      obtain rfl : fault = .flowColon := hfault
      obtain rfl : span = .sized lo 1 := hspan
      exact .inl (.of_span (show lo + 1 ≤ hi by omega) rfl)

theorem Item.Fits.span {hi : Nat} {item : Item} (h : item.Fits hi) : item.span.stop ≤ hi := by
  cases h with
  | null h | bool h | number h | text h | seq h | map h => exact h

theorem Item.Fits.mono {lo hi : Nat} {item : Item} (h : item.Fits lo) (hle : lo ≤ hi) : item.Fits hi := by
  induction h with
  | null h => exact .null (Nat.le_trans h hle)
  | bool h => exact .bool (Nat.le_trans h hle)
  | number h => exact .number (Nat.le_trans h hle)
  | text h content => exact .text (Nat.le_trans h hle) (Nat.le_trans content hle)
  | seq h _ ih => exact .seq (Nat.le_trans h hle) ih
  | map h hkeys _ ih =>
    refine .map (Nat.le_trans h hle) (fun entry he => ?_) ih
    exact ⟨Nat.le_trans (hkeys entry he).span hle, Nat.le_trans (hkeys entry he).content hle⟩

/-! ## Places of one text -/

theorem between_stop_le {a b hi : Nat} (ha : a ≤ hi) (hb : b ≤ hi) : (Span.between a b).stop ≤ hi :=
  Nat.max_le.mpr ⟨ha, hb⟩

namespace Place

variable {p : Place} {hi : Nat}

theorem pos_le (h : p.stop = hi) : p.pos ≤ hi :=
  h ▸ p.pos_le_stop

/-- Where something is left there is room for a byte. -/
theorem pos_lt (h : p.stop = hi) (hrest : p.rest ≠ []) : p.pos + 1 ≤ hi := by
  obtain ⟨pos, cs⟩ := p
  obtain ⟨c, cs, rfl⟩ := List.exists_cons_of_ne_nil hrest
  have hc := c.utf8Size_pos
  simp only [stop, Text.width_cons] at h
  dsimp only
  omega

theorem stop_skipSpaces (p : Place) : p.skipSpaces.stop = p.stop :=
  (p.reaches_skipWhile _).stop

end Place

namespace Flow

variable {hi : Nat}

/-! ## Readers -/

/-- What a reader finds is good, and what it reports ends by `hi`. -/
def Good {α : Type} (hi : Nat) (good : α → Prop) : Except Diagnostic α → Prop
  | .ok a => good a
  | .error d => d.Ends hi

namespace Good

variable {α β : Type} {good : α → Prop} {good' : β → Prop} {x : Except Diagnostic α}

theorem bind {f : α → Except Diagnostic β} (hx : Good hi good x) (hf : ∀ a, good a → Good hi good' (f a)) :
    Good hi good' (x >>= f) := by
  cases x with
  | ok a => exact hf a hx
  | error d => exact hx

theorem mono {lo : Nat} {weaker : α → Prop} (h : Good lo good x) (hle : lo ≤ hi) (hgood : ∀ a, good a → weaker a) :
    Good hi weaker x := by
  cases x with
  | ok a => exact hgood a h
  | error d => exact Diagnostic.Ends.mono h hle

end Good

/-- What was read is good, and the text that is left ends where it did. -/
def Left {α : Type} (hi : Nat) (good : α → Prop) (r : α × Place) : Prop :=
  good r.1 ∧ r.2.stop = hi

/-- So is what was read, if anything was. -/
def Found {α : Type} (hi : Nat) (good : α → Prop) : Option (α × Place) → Prop
  | none => True
  | some r => Left hi good r

theorem Left.nil {α : Type} {hi : Nat} {good : α → Prop} {p : Place} (hp : p.stop = hi) :
    Left hi (fun found => ∀ a ∈ found, good a) ([], p) :=
  ⟨fun _ ha => absurd ha List.not_mem_nil, hp⟩

theorem Left.cons {α : Type} {hi : Nat} {good : α → Prop} {a : α} {more : List α × Place} (ha : good a)
    (hmore : Left hi (fun found => ∀ a ∈ found, good a) more) :
    Left hi (fun found => ∀ a ∈ found, good a) (a :: more.1, more.2) :=
  ⟨List.forall_mem_cons.mpr ⟨ha, hmore.1⟩, hmore.2⟩

variable {p : Place}

/-! ## Scalars -/

theorem utf8Size_of_unescape? {c x : Char} (h : unescape? c = some x) : x.utf8Size = 1 := by
  unfold unescape? at h
  split at h
  · cases h; rfl
  · exact Quoted.utf8Size_of_unescape? h

theorem stop_behind {c : Char} {cs : List Char} (hc : c.utf8Size = 1) (hrest : p.rest = c :: cs) :
    p.pos + 1 + width cs = p.stop := by
  rw [Place.stop, hrest, Text.width_cons, hc, Nat.add_assoc]

theorem doubleQuoted_within {cs : List Char} (hrest : p.rest = '"' :: cs) :
    (Quoted.escaped unescape? '"' (p.pos + 1) cs).Within (p.pos + 1) p.stop := by
  rw [← stop_behind rfl hrest]
  exact Quoted.escaped_within (fun _ _ => utf8Size_of_unescape?) rfl (p.pos + 1) cs

theorem singleQuoted_within {cs : List Char} (hrest : p.rest = '\'' :: cs) :
    (Quoted.doubled '\'' (p.pos + 1) cs).Within (p.pos + 1) p.stop := by
  rw [← stop_behind rfl hrest]
  exact Quoted.doubled_within rfl (p.pos + 1) cs

/-- A quoted text has room for what it says between its quotes. -/
theorem quoted?_ends (p : Place) :
    Good p.stop (Found p.stop fun s => p.pos + 1 + width s.toList ≤ p.stop) (quoted? p) := by
  have closed {content : List Char} {after : Place} (h : (Quoted.Scan.closed content after).Within (p.pos + 1) p.stop) :
      Good p.stop (Found p.stop fun s => p.pos + 1 + width s.toList ≤ p.stop)
        (.ok (some (String.ofList content, after))) := by
    obtain ⟨hpos, hstop⟩ := h
    have hle := Place.pos_le hstop
    refine ⟨?_, hstop⟩
    show p.pos + 1 + width (String.ofList content).toList ≤ p.stop
    rw [String.toList_ofList]
    omega
  have badEscape {pos : Nat} {after : Place} (h : (Quoted.Scan.badEscape pos after).Within (p.pos + 1) p.stop) :
      Diagnostic.Fits p.stop ⟨.scalarEscape, .sized pos 1⟩ := by
    obtain ⟨-, hpos, hstop⟩ := h
    have hle := Place.pos_le hstop
    exact .of_span (show pos + 1 ≤ p.stop by omega) rfl
  have unclosed {quote : Char} {stop : Nat} (h : (Quoted.Scan.unclosed stop).Within (p.pos + 1) p.stop) :
      Diagnostic.Fits p.stop ⟨.openScalar quote, .between p.pos stop⟩ := by
    obtain ⟨-, rfl⟩ := h
    exact .of_span (between_stop_le p.pos_le_stop (Nat.le_refl _)) rfl
  unfold quoted?
  dsimp only
  split
  · rename_i cs hrest
    have h := doubleQuoted_within hrest
    cases hscan : Quoted.escaped unescape? '"' (p.pos + 1) cs <;> rw [hscan] at h
    · exact closed h
    · exact .inl (badEscape h)
    · exact .inl (unclosed h)
  · rename_i cs hrest
    have h := singleQuoted_within hrest
    cases hscan : Quoted.doubled '\'' (p.pos + 1) cs <;> rw [hscan] at h
    · exact closed h
    · exact .inl (badEscape h)
    · exact .inl (unclosed h)
  · trivial

theorem takePlain_isPrefix (isKey : Bool) (depth : Nat) (quote : Option Char) (previous : Char) (cs : List Char) :
    takePlain isKey depth quote previous cs <+: cs := by
  induction cs generalizing depth quote previous with
  | nil => exact List.nil_prefix
  | cons c cs ih =>
    unfold takePlain
    split
    · exact (List.prefix_cons_inj c).mpr (ih ..)
    · split
      · exact (List.prefix_cons_inj c).mpr (ih ..)
      split
      · exact (List.prefix_cons_inj c).mpr (ih ..)
      split
      · exact (List.prefix_cons_inj c).mpr (ih ..)
      split
      · exact List.nil_prefix
      split
      · exact List.nil_prefix
      · exact (List.prefix_cons_inj c).mpr (ih ..)

theorem trimEnd_isPrefix (cs : List Char) : Text.trimEnd cs <+: cs :=
  List.rdropWhile_prefix Text.isBlank cs

/-- A plain scalar is the text between two places. -/
theorem plain?_ends {context : Context} {word : List Char} {q : Place} (h : plain? context p = some (word, q)) :
    p.pos + width word = q.pos ∧ q.stop = p.stop := by
  have hwhole (whole : List Char) (hfront : whole <+: p.rest)
      (hw : (if (Text.trimEnd whole).isEmpty then none else some (Text.trimEnd whole,
        (⟨p.pos + width (Text.trimEnd whole), p.rest.drop (Text.trimEnd whole).length⟩ : Place))) = some (word, q)) :
      p.pos + width word = q.pos ∧ q.stop = p.stop := by
    obtain ⟨more, hmore⟩ := (trimEnd_isPrefix whole).trans hfront
    split at hw
    · cases hw
    · cases hw
      refine ⟨rfl, ?_⟩
      simp only [Place.stop, ← hmore, List.drop_left, Text.width_append, Nat.add_assoc]
  unfold plain? at h
  split at h
  · cases h
  · cases context with
    | block => exact hwhole _ (List.prefix_refl _) h
    | item => exact hwhole _ (takePlain_isPrefix ..) h
    | key => exact hwhole _ (takePlain_isPrefix ..) h

theorem resolve_fits {word : List Char} {span : Span} {hi : Nat} (hspan : span.stop ≤ hi)
    (hword : span.start + width word ≤ hi) : (resolve word span).Fits hi := by
  unfold resolve
  dsimp only
  split
  · exact .null hspan
  split
  · exact .bool hspan
  split
  · exact .bool hspan
  split
  · exact .number hspan
  · refine .text hspan ?_
    rw [String.toList_ofList]
    exact hword

theorem between_start_le (a b : Nat) : (Span.between a b).start ≤ a :=
  Nat.min_le_left a b

theorem scalar?_ends (context : Context) (p : Place) :
    Good p.stop (Found p.stop (Item.Fits p.stop)) (scalar? context p) := by
  refine (quoted?_ends p).bind fun r hr => ?_
  cases r with
  | some r =>
    obtain ⟨s, q⟩ := r
    obtain ⟨hroom, hstop⟩ := hr
    have hstart := between_start_le p.pos q.pos
    refine ⟨.text (between_stop_le p.pos_le_stop (Place.pos_le hstop)) ?_, hstop⟩
    show (Span.between p.pos q.pos).start + 1 + width s.toList ≤ p.stop
    dsimp only at hroom
    omega
  | none =>
    show Found p.stop _ ((plain? context p).map _)
    cases hplain : plain? context p with
    | none => trivial
    | some r =>
      obtain ⟨word, q⟩ := r
      obtain ⟨hpos, hstop⟩ := plain?_ends hplain
      have hle := Place.pos_le hstop
      have hstart := between_start_le p.pos q.pos
      refine ⟨resolve_fits (between_stop_le p.pos_le_stop hle) ?_, hstop⟩
      omega

theorem key?_ends (p : Place) : Good p.stop (Found p.stop (Spanned.Fits p.stop)) (key? p) := by
  refine (quoted?_ends p).bind fun r hr => ?_
  cases r with
  | some r =>
    obtain ⟨s, q⟩ := r
    obtain ⟨hroom, hstop⟩ := hr
    have hstart := between_start_le p.pos q.pos
    refine ⟨⟨between_stop_le p.pos_le_stop (Place.pos_le hstop), ?_⟩, hstop⟩
    dsimp only at hroom ⊢
    omega
  | none =>
    show Found p.stop _ ((plain? .key p).map _)
    cases hplain : plain? .key p with
    | none => trivial
    | some r =>
      obtain ⟨word, q⟩ := r
      obtain ⟨hpos, hstop⟩ := plain?_ends hplain
      have hle := Place.pos_le hstop
      have hstart := between_start_le p.pos q.pos
      refine ⟨⟨between_stop_le p.pos_le_stop hle, ?_⟩, hstop⟩
      show (Span.between p.pos q.pos).start + width (String.ofList word).toList ≤ p.stop
      rw [String.toList_ofList]
      omega

/-! ## Collections -/

variable {hi : Nat}

theorem comma?_ends {q : Place} (hp : p.stop = hi) (h : comma? p = some q) : q.stop = hi := by
  obtain ⟨pos, cs⟩ := p
  unfold comma? at h
  dsimp only at h
  split at h
  · cases h
    rw [Place.stop_skipSpaces, ← hp]
    exact (Place.reaches_cons pos ',' _).stop
  · cases h

theorem close_ends {bracket : Char} (hbracket : bracket.utf8Size = 1) {start : Nat} (hstart : start ≤ hi)
    (hp : p.stop = hi) : Good hi (fun q : Place => q.stop = hi) (close bracket start p) := by
  have hcomma : ((comma? p).getD p).stop = hi := by
    cases h : comma? p with
    | none => exact hp
    | some q => exact comma?_ends hp h
  unfold close
  generalize (comma? p).getD p = q at hcomma
  obtain ⟨pos, cs⟩ := q
  cases cs with
  | nil => exact .inl (.of_span (between_stop_le hstart (Place.pos_le hcomma)) rfl)
  | cons c cs =>
    dsimp only
    split
    · rename_i heq
      subst heq
      show pos + 1 + width cs = hi
      simp only [Place.stop, Text.width_cons, hbracket] at hcomma
      omega
    · exact .inl (.of_span (Place.pos_lt hcomma (List.cons_ne_nil c cs)) rfl)

/-- An entry of a map that ends by `hi`. -/
def EntryFits (hi : Nat) (entry : Item.Entry) : Prop :=
  entry.1.Fits hi ∧ entry.2.Fits hi

/-- The readers of a text that ends at `hi`, `n` deep. -/
structure Ending (hi n : Nat) : Prop where
  node? (context : Context) {p : Place} (hp : p.stop = hi) : Good hi (Found hi (Item.Fits hi)) (node? n context p)
  items {p : Place} (hp : p.stop = hi) : Good hi (Left hi fun items => ∀ item ∈ items, item.Fits hi) (items n p)
  moreItems {p : Place} (hp : p.stop = hi) : Good hi (Left hi fun items => ∀ item ∈ items, item.Fits hi) (moreItems n p)
  entry {p : Place} (hp : p.stop = hi) : Good hi (Found hi (EntryFits hi)) ( entry? n p)
  entries {p : Place} (hp : p.stop = hi) : Good hi (Left hi fun entries => ∀ e ∈ entries, EntryFits hi e) (entries n p)
  moreEntries {p : Place} (hp : p.stop = hi) :
    Good hi (Left hi fun entries => ∀ e ∈ entries, EntryFits hi e) (moreEntries n p)

theorem ending_zero : Ending hi 0 where
  node? _ _ _ := trivial
  items hp := .nil hp
  moreItems hp := .nil hp
  entry _ := trivial
  entries hp := .nil hp
  moreEntries hp := .nil hp

section

variable {n : Nat} (ih : Ending hi n) (hp : p.stop = hi)
include ih hp

theorem node?_ends (context : Context) : Good hi (Found hi (Item.Fits hi)) (node? (n + 1) context p) := by
  have hpos := Place.pos_le hp
  have hopen {c : Char} {cs : List Char} (hc : c.utf8Size = 1) (hrest : p.rest = c :: cs) :
      (Place.skipSpaces ⟨p.pos + 1, cs⟩).stop = hi := by
    rw [Place.stop_skipSpaces, ← hp]
    exact stop_behind hc hrest
  unfold node?
  split
  · rename_i cs hrest
    refine (ih.items (hopen rfl hrest)).bind fun r hr => ?_
    refine (close_ends rfl hpos hr.2).bind fun q hq => ?_
    exact ⟨.seq (between_stop_le hpos (Place.pos_le hq)) hr.1, hq⟩
  · rename_i cs hrest
    refine (ih.entries (hopen rfl hrest)).bind fun r hr => ?_
    refine (close_ends rfl hpos hr.2).bind fun q hq => ?_
    exact ⟨.map (between_stop_le hpos (Place.pos_le hq)) (fun e he => (hr.1 e he).1) fun e he => (hr.1 e he).2, hq⟩
  · exact hp ▸ scalar?_ends context p

theorem items_ends : Good hi (Left hi fun items => ∀ item ∈ items, item.Fits hi) (items (n + 1) p) := by
  unfold items
  refine (ih.node? .item hp).bind fun r hr => ?_
  cases r with
  | none => exact .nil hp
  | some r =>
    refine (ih.moreItems ((Place.stop_skipSpaces r.2).trans hr.2)).bind fun more hmore => ?_
    exact .cons hr.1 hmore

theorem moreItems_ends : Good hi (Left hi fun items => ∀ item ∈ items, item.Fits hi) (moreItems (n + 1) p) := by
  unfold moreItems
  cases hcomma : comma? p with
  | none => exact .nil hp
  | some next =>
    refine (ih.node? .item (comma?_ends hp hcomma)).bind fun r hr => ?_
    cases r with
    | none => exact .nil hp
    | some r =>
      refine (ih.moreItems ((Place.stop_skipSpaces r.2).trans hr.2)).bind fun more hmore => ?_
      exact .cons hr.1 hmore

theorem entry?_ends : Good hi (Found hi (EntryFits hi)) ( entry? (n + 1) p) := by
  unfold entry?
  refine Good.bind (hp ▸ key?_ends p) fun r hr => ?_
  cases r with
  | none => trivial
  | some r =>
    obtain ⟨key, q⟩ := r
    obtain ⟨hkey, hq⟩ := hr
    have hskip : q.skipSpaces.stop = hi := (Place.stop_skipSpaces q).trans hq
    have hcolon {cs : List Char} (hrest : q.skipSpaces.rest = ':' :: cs) :
        (Place.skipSpaces ⟨q.skipSpaces.pos + 1, cs⟩).stop = hi := by
      rw [Place.stop_skipSpaces, ← hskip]
      exact stop_behind rfl hrest
    dsimp only
    split
    · rename_i cs hrest
      refine (ih.node? .item (hcolon hrest)).bind fun r hr => ?_
      cases r with
      | none => exact ⟨⟨hkey, .null (Place.pos_le (hcolon hrest))⟩, (Place.stop_skipSpaces _).trans (hcolon hrest)⟩
      | some r => exact ⟨⟨hkey, hr.1⟩, (Place.stop_skipSpaces _).trans hr.2⟩
    · -- at the end of the text this label reaches one byte too far
      by_cases hrest : q.skipSpaces.rest = []
      · have hpos : q.skipSpaces.pos = hi := by
          rw [← hskip, Place.stop, hrest, Text.width_nil, Nat.add_zero]
        exact .inr ⟨rfl, by rw [hpos]⟩
      · exact .inl (.of_span (Place.pos_lt hskip hrest) rfl)

theorem entries_ends : Good hi (Left hi fun entries => ∀ e ∈ entries, EntryFits hi e) (entries (n + 1) p) := by
  unfold entries
  refine (ih.entry hp).bind fun r hr => ?_
  cases r with
  | none => exact .nil hp
  | some r =>
    refine (ih.moreEntries hr.2).bind fun more hmore => ?_
    exact .cons hr.1 hmore

theorem moreEntries_ends : Good hi (Left hi fun entries => ∀ e ∈ entries, EntryFits hi e) (moreEntries (n + 1) p) := by
  unfold moreEntries
  cases hcomma : comma? p with
  | none => exact .nil hp
  | some next =>
    refine (ih.entry (comma?_ends hp hcomma)).bind fun r hr => ?_
    cases r with
    | none => exact .nil hp
    | some r =>
      refine (ih.moreEntries hr.2).bind fun more hmore => ?_
      exact .cons hr.1 hmore

end

theorem ending (hi n : Nat) : Ending hi n := by
  induction n with
  | zero => exact ending_zero
  | succ n ih =>
    exact {
      node? := fun context _ hp => node?_ends ih hp context
      items := items_ends ih
      moreItems := moreItems_ends ih
      entry := entry?_ends ih
      entries := entries_ends ih
      moreEntries := moreEntries_ends ih }

/-- The value of a line that is not empty. -/
theorem line_ends {p : Place} (hp : p.stop = hi) (hne : p.rest ≠ []) : Good hi (Item.Fits hi) (line p) := by
  unfold line
  refine ((ending hi _).node? .block hp).bind fun r hr => ?_
  cases r with
  | none => exact .inl (.of_span (Place.pos_lt hp hne) rfl)
  | some r =>
    obtain ⟨item, q⟩ := r
    obtain ⟨hitem, hq⟩ := hr
    have hskip : q.skipSpaces.stop = hi := (Place.stop_skipSpaces q).trans hq
    dsimp only
    split
    · exact hitem
    · exact .inl (.of_span (between_stop_le (Place.pos_le hskip) (Nat.le_of_eq hskip)) rfl)

/-! ## Repeated keys -/

theorem duplicate?_fits {seen : List (Spanned String)} {key : Spanned String} (hseen : ∀ k ∈ seen, k.Fits hi)
    (hkey : key.Fits hi) : ∀ d ∈ duplicate? seen key, d.Fits hi := by
  intro d hd
  unfold duplicate? at hd
  obtain ⟨first, hfirst, rfl⟩ := Option.map_eq_some_iff.mp hd
  refine ⟨hkey.span, ?_⟩
  rintro _ ⟨⟩
  exact (hseen first (List.mem_of_find?_eq_some hfirst)).span

mutual

theorem repeatedKeys_fit : ∀ {item : Item}, item.Fits hi → ∀ d ∈ repeatedKeys item, d.Fits hi
  | .seq _ _, .seq _ hitems => repeatedInItems_fit hitems
  | .map _ _, .map _ hkeys hvalues => repeatedInEntries_fit (fun _ h => absurd h List.not_mem_nil) hkeys hvalues
  | .null _, _ | .bool .., _ | .number .., _ | .text .., _ => fun _ h => absurd h List.not_mem_nil

theorem repeatedInItems_fit : ∀ {items : List Item}, (∀ item ∈ items, item.Fits hi) →
    ∀ d ∈ repeatedInItems items, d.Fits hi
  | [], _ => fun _ h => absurd h List.not_mem_nil
  | item :: items, h => by
    obtain ⟨hitem, hitems⟩ := List.forall_mem_cons.mp h
    exact List.forall_mem_append.mpr ⟨repeatedKeys_fit hitem, repeatedInItems_fit hitems⟩

theorem repeatedInEntries_fit : ∀ {seen : List (Spanned String)} {entries : List Item.Entry}, (∀ k ∈ seen, k.Fits hi) →
    (∀ e ∈ entries, e.1.Fits hi) → (∀ e ∈ entries, e.2.Fits hi) → ∀ d ∈ repeatedInEntries seen entries, d.Fits hi
  | _, [], _, _, _ => fun _ h => absurd h List.not_mem_nil
  | seen, (key, value) :: entries, hseen, hkeys, hvalues => by
    obtain ⟨hkey, hkeys⟩ := List.forall_mem_cons.mp hkeys
    obtain ⟨hvalue, hvalues⟩ := List.forall_mem_cons.mp hvalues
    have hmore : ∀ k ∈ seen ++ [key], k.Fits hi :=
      List.forall_mem_append.mpr ⟨hseen, List.forall_mem_singleton.mpr hkey⟩
    refine List.forall_mem_append.mpr ⟨List.forall_mem_append.mpr ⟨fun d hd => ?_, repeatedKeys_fit hvalue⟩, ?_⟩
    · exact duplicate?_fits hseen hkey d (Option.mem_toList.mp hd)
    · exact repeatedInEntries_fit hmore hkeys hvalues

end

end Flow

end Sketchwork
