/-
  Sketchwork.Proofs.Outline.Ledger — what every line of a document was read as.

  A ledger lists lines in order, each with its one use: an item begins on it, it has a key, a
  collection that is open before it goes on over it, or it was passed over. `Holds` and the relations
  beside it tie a ledger to the tree that was read, one for each kind of part: what has no dash, key,
  value or bracket of the tree to stand for is passed over, and only with a fault that was reported.
  A line `- key: value` is used by the item; behind its dash it is in turn the first line of a block.

  Proved: in a ledger that goes with a tree lines are passed over only for faults that were
  reported (`Holds.all_reported`), and with none reported every line is consumed
  (`Reported.consumed`).
-/
import Sketchwork.Proofs.Outline.Extents

namespace Sketchwork

open Text (isBlank width)

/-! ## Ledgers -/

inductive Use where
  /-- An item begins on the line: one with a dash, or the value that a block is. -/
  | item
  | key
  | continuation
  | passed (fault : Diagnostic)

abbrev Ledger := List (Line × Use)

namespace Ledger

def lines (ledger : Ledger) : List Line :=
  ledger.map Prod.fst

/-- The same use of all lines. -/
def all (use : Use) (ls : List Line) : Ledger :=
  ls.map fun l => (l, use)

@[simp] theorem lines_cons (l : Line) (use : Use) (ledger : Ledger) : lines ((l, use) :: ledger) = l :: lines ledger :=
  rfl

@[simp] theorem lines_append (a b : Ledger) : lines (a ++ b) = lines a ++ lines b :=
  List.map_append

@[simp] theorem lines_all (use : Use) (ls : List Line) : lines (all use ls) = ls := by
  induction ls with
  | nil => rfl
  | cons l ls ih => exact congrArg (l :: ·) ih

/-! ## Values and lines passed over -/

/-- What lines hold behind an offset, with spaces for the gaps between them. -/
def joined (stop : Nat) : List Line → List Char
  | [] => []
  | l :: ls => List.replicate (l.start - stop) ' ' ++ l.text ++ joined l.stop ls

/-- Lines that a value goes on over: it opens with a bracket, and they are deeper or begin with one
    that closes. -/
structure GoesOn (indent : Nat) (text : List Char) (ls : List Line) : Prop where
  opens : ls ≠ [] → text.head? = some '[' ∨ text.head? = some '\x7b'
  lines : ∀ l ∈ ls, indent < l.indent ∨ l.text.head? = some ']' ∨ l.text.head? = some '\x7d'

/-- The value that `text` at `start` begins, and the lines it goes on over. -/
inductive Value (reported : List Diagnostic) (indent start : Nat) (text : List Char) : Ledger → Item → Prop
  | read {ls : List Line} {item : Item} (hlines : GoesOn indent text ls)
      (hread : Flow.line ⟨start, text ++ joined (start + width text) ls⟩ = .ok item) :
      Value reported indent start text (all .continuation ls) item
  | refused {ls : List Line} {fault : Diagnostic} (hlines : GoesOn indent text ls)
      (hread : Flow.line ⟨start, text ++ joined (start + width text) ls⟩ = .error fault) (hreported : fault ∈ reported) :
      Value reported indent start text (all .continuation ls) (.null (.point start))

def stray (l : Line) : Diagnostic :=
  ⟨.strayIndentation, l.span⟩

def notAnEntry (l : Line) : Diagnostic :=
  ⟨.notAnEntry, l.span⟩

/-- Lines deeper than `indent` that are passed over, the first of them reported. -/
inductive Passed (reported : List Diagnostic) (indent : Nat) : Ledger → Prop
  | none : Passed reported indent []
  | lines {first : Line} {ls : List Line} (hdeep : ∀ l ∈ first :: ls, indent < l.indent) (hreported : stray first ∈ reported) :
      Passed reported indent (all (.passed (stray first)) (first :: ls))

/-! ## Blocks -/

/-- A dash, and `inner` is the line from behind it and its blanks on. -/
structure Dash (line inner : Line) : Prop where
  text : ∃ gap, (∀ c ∈ gap, isBlank c = true) ∧ line.text = '-' :: (gap ++ inner.text)
  stop : inner.stop = line.stop
  column : inner.indent + line.start = line.indent + inner.start

/-- A key, its colon and what is behind it. -/
structure Colon (line : Line) (k : Line.Keyed) : Prop where
  text : ∃ before gap, (∀ c ∈ before ++ gap, isBlank c = true) ∧
    line.text = k.key.value.toList ++ (before ++ ':' :: (gap ++ k.value))
  key : k.key.value.toList ≠ []
  span : k.key.span = .sized line.start (width k.key.value.toList)
  value : k.valueStart + width k.value = line.stop

variable (reported : List Diagnostic)

mutual

/-- The lines of a block: of a value, a list or a map. -/
inductive Holds : Ledger → Item → Prop
  | value {line : Line} {below skipped : Ledger} {item : Item}
      (hvalue : Value reported line.indent line.start line.text below item) (hskipped : Passed reported line.indent skipped) :
      Holds ((line, .item) :: (below ++ skipped)) item
  | list {line : Line} {ledger : Ledger} {items : List Item} {span : Span} (hfirst : ledger.head? = some (line, .item))
      (hitems : Bullets line.indent ledger items) : Holds ledger (.seq items span)
  | map {line : Line} {ledger : Ledger} {entries : List Item.Entry} {span : Span}
      (hfirst : ledger.head? = some (line, .key)) (hentries : Entries line.indent ledger entries) :
      Holds ledger (.map entries span)

/-- The lines of the items of a list at one column. -/
inductive Bullets : Nat → Ledger → List Item → Prop
  | nil {indent : Nat} : Bullets indent [] []
  | cons {indent : Nat} {line : Line} {below skipped more : Ledger} {item : Item} {items : List Item}
      (hindent : line.indent = indent) (hitem : Bullet indent line below item) (hskipped : Passed reported indent skipped)
      (hmore : Bullets indent more items) :
      Bullets indent ((line, .item) :: (below ++ (skipped ++ more))) (item :: items)

/-- What is behind and below a dash. -/
inductive Bullet : Nat → Line → Ledger → Item → Prop
  | part {indent : Nat} {line inner : Line} {below : Ledger} {item : Item} (hdash : Dash line inner)
      (hpart : Part indent inner.start inner.text below item) : Bullet indent line below item
  | block {indent : Nat} {line inner : Line} {use : Use} {below : Ledger} {item : Item} (hdash : Dash line inner)
      (hblock : Holds ((inner, use) :: below) item) : Bullet indent line below item

/-- The lines of the entries of a map at one column. -/
inductive Entries : Nat → Ledger → List Item.Entry → Prop
  | nil {indent : Nat} : Entries indent [] []
  | cons {indent : Nat} {line : Line} {k : Line.Keyed} {below skipped more : Ledger} {item : Item}
      {entries : List Item.Entry} (hindent : line.indent = indent) (hkey : Colon line k)
      (hitem : Entry indent k below item) (hskipped : Passed reported indent skipped) (hmore : Entries indent more entries) :
      Entries indent ((line, .key) :: (below ++ (skipped ++ more))) ((k.key, item) :: entries)
  | notEntry {indent : Nat} {line : Line} {skipped more : Ledger} {entries : List Item.Entry}
      (hreported : notAnEntry line ∈ reported) (hskipped : Passed reported indent skipped)
      (hmore : Entries indent more entries) :
      Entries indent ((line, .passed (notAnEntry line)) :: (skipped ++ more)) entries

/-- What is behind and below a key. -/
inductive Entry : Nat → Line.Keyed → Ledger → Item → Prop
  | part {indent : Nat} {k : Line.Keyed} {below : Ledger} {item : Item} (hpart : Part indent k.valueStart k.value below item) :
      Entry indent k below item
  | list {indent : Nat} {k : Line.Keyed} {first : Line} {below : Ledger} {items : List Item} {span : Span}
      (hnothing : k.value = []) (hfirst : below.head? = some (first, .item)) (hitems : Bullets indent below items) :
      Entry indent k below (.seq items span)

/-- What an item or entry has: the value that begins behind it, or with nothing behind it a deeper
    block below, or nothing at all. -/
inductive Part : Nat → Nat → List Char → Ledger → Item → Prop
  | value {indent start : Nat} {text : List Char} {below : Ledger} {item : Item} (hne : text ≠ [])
      (hvalue : Value reported indent start text below item) : Part indent start text below item
  | block {indent start : Nat} {first : Line} {use : Use} {below : Ledger} {item : Item}
      (hfirst : below.head? = some (first, use)) (hdeep : indent < first.indent) (hblock : Holds below item) :
      Part indent start [] below item
  | nothing {indent start : Nat} {span : Span} : Part indent start [] [] (.null span)

end

variable {reported}

theorem Holds.exists_first {ledger : Ledger} {item : Item} (h : Holds reported ledger item) :
    ∃ line use more, ledger = (line, use) :: more := by
  cases h with
  | value => exact ⟨_, _, _, rfl⟩
  | list hfirst | map hfirst =>
    obtain ⟨more, rfl⟩ := List.head?_eq_some_iff.mp hfirst
    exact ⟨_, _, _, rfl⟩

/-! ## Faults of passed lines -/

/-- What lines were passed over for was reported. -/
def Reported (reported : List Diagnostic) (ledger : Ledger) : Prop :=
  ∀ l fault, (l, Use.passed fault) ∈ ledger → fault ∈ reported

/-- An item, a key or a collection that goes on has every line. -/
def Consumed (ledger : Ledger) : Prop :=
  ∀ l use, (l, use) ∈ ledger → use = .item ∨ use = .key ∨ use = .continuation

namespace Reported

variable {a b : Ledger} {l : Line} {use : Use}

theorem nil : Reported reported [] :=
  fun _ _ h => absurd h List.not_mem_nil

theorem append (ha : Reported reported a) (hb : Reported reported b) : Reported reported (a ++ b) := by
  intro l fault h
  rcases List.mem_append.mp h with h | h
  · exact ha l fault h
  · exact hb l fault h

theorem cons (hl : ∀ fault, use = .passed fault → fault ∈ reported) (ha : Reported reported a) :
    Reported reported ((l, use) :: a) := by
  intro l' fault h
  rcases List.mem_cons.mp h with h | h
  · exact hl fault (Prod.mk.inj h).2.symm
  · exact ha l' fault h

theorem tail (h : Reported reported ((l, use) :: a)) : Reported reported a :=
  fun l fault hl => h l fault (List.mem_cons_of_mem _ hl)

theorem all (hl : ∀ fault, use = .passed fault → fault ∈ reported) (ls : List Line) :
    Reported reported (all use ls) := by
  intro l fault h
  obtain ⟨l', -, heq⟩ := List.mem_map.mp h
  exact hl fault (Prod.mk.inj heq).2

/-- Without a fault no line was passed over. -/
theorem consumed (h : Reported [] a) : Consumed a := by
  intro l use hl
  cases use with
  | item => exact .inl rfl
  | key => exact .inr (.inl rfl)
  | continuation => exact .inr (.inr rfl)
  | passed fault => exact absurd (h l fault hl) List.not_mem_nil

end Reported

theorem Value.all_reported {indent start : Nat} {text : List Char} {ledger : Ledger} {item : Item}
    (h : Value reported indent start text ledger item) : Reported reported ledger := by
  cases h with
  | read | refused => exact .all (by rintro _ ⟨⟩) _

theorem Passed.all_reported {indent : Nat} {ledger : Ledger} (h : Passed reported indent ledger) : Reported reported ledger := by
  cases h with
  | none => exact .nil
  | lines _ hreported =>
    refine .all (fun _ h => ?_) _
    cases h
    exact hreported

mutual

theorem Holds.all_reported {ledger : Ledger} {item : Item} : Holds reported ledger item → Reported reported ledger
  | .value hvalue hskipped => .cons (fun _ h => nomatch h) (hvalue.all_reported.append hskipped.all_reported)
  | .list _ hitems => hitems.all_reported
  | .map _ hentries => hentries.all_reported

theorem Bullets.all_reported {indent : Nat} {ledger : Ledger} {items : List Item} :
    Bullets reported indent ledger items → Reported reported ledger
  | .nil => .nil
  | .cons _ hitem hskipped hmore =>
    .cons (fun _ h => nomatch h) (hitem.all_reported.append (hskipped.all_reported.append hmore.all_reported))

theorem Bullet.all_reported {indent : Nat} {line : Line} {ledger : Ledger} {item : Item} :
    Bullet reported indent line ledger item → Reported reported ledger
  | .part _ hpart => hpart.all_reported
  | .block _ hblock => hblock.all_reported.tail

theorem Entries.all_reported {indent : Nat} {ledger : Ledger} {entries : List Item.Entry} :
    Entries reported indent ledger entries → Reported reported ledger
  | .nil => .nil
  | .cons _ _ hitem hskipped hmore =>
    .cons (fun _ h => nomatch h) (hitem.all_reported.append (hskipped.all_reported.append hmore.all_reported))
  | .notEntry hreported hskipped hmore =>
    .cons (fun _ h => Use.passed.inj h ▸ hreported) (hskipped.all_reported.append hmore.all_reported)

theorem Entry.all_reported {indent : Nat} {k : Line.Keyed} {ledger : Ledger} {item : Item} :
    Entry reported indent k ledger item → Reported reported ledger
  | .part hpart => hpart.all_reported
  | .list _ _ hitems => hitems.all_reported

theorem Part.all_reported {indent start : Nat} {text : List Char} {ledger : Ledger} {item : Item} :
    Part reported indent start text ledger item → Reported reported ledger
  | .value _ hvalue => hvalue.all_reported
  | .block _ _ hblock => hblock.all_reported
  | .nothing => .nil

end

end Ledger

end Sketchwork
