/-
  Sketchwork.Proofs.Outline.Bounds — no reader comes to its bound, and no line is lost in silence.

  The readers of this module are those of values and of blocks over again, but for one thing: they
  find nothing at all where one of them comes to its bound.

  The readers of a value take turns, and each of them has taken a character before it is the turn of
  the first again: twice the characters that are left are enough. For the readers of blocks the lines
  that are left count, and how much of the first one is (`Ledger.size`).

  Proved: reading comes to an end for every text, and there is a ledger of all its lines, in order
  and each once, that goes with the tree; a line is passed over, or left behind the tree, only with a
  fault that was reported, so a text that is accepted has no such line (`every_line_accounted`).
-/
import Sketchwork.Proofs.Outline.Accounting
import Sketchwork.Proofs.Outline.Ranges

namespace Sketchwork

open Text (width)

theorem Place.Leads.length_le {p q : Place} (h : p.Leads q) : q.rest.length ≤ p.rest.length := by
  obtain ⟨part, hover⟩ := h
  rw [hover.rest, List.length_append]
  exact Nat.le_add_left ..

theorem Place.length_skipSpaces_le (p : Place) : p.skipSpaces.rest.length ≤ p.rest.length :=
  p.skipWhile_length_le _

namespace Flow

/-! ## Values -/

namespace Strict

mutual

/-- The value that begins at a place, if one does. -/
def node? : Nat → Context → Place → ExceptT Diagnostic Option (Option (Item × Place))
  | 0, _, _ => ExceptT.mk none
  | n + 1, context, p =>
    match p.rest with
    | '[' :: cs => do
      let (items, q) ← items n (Place.skipSpaces ⟨p.pos + 1, cs⟩)
      let q ← close ']' p.pos q
      return some (.seq items (.between p.pos q.pos), q)
    | '{' :: cs => do
      let (entries, q) ← entries n (Place.skipSpaces ⟨p.pos + 1, cs⟩)
      let q ← close '}' p.pos q
      return some (.map entries (.between p.pos q.pos), q)
    | _ => scalar? context p

def items : Nat → Place → ExceptT Diagnostic Option (List Item × Place)
  | 0, _ => ExceptT.mk none
  | n + 1, p => do
    match ← node? n .item p with
    | none => return ([], p)
    | some (item, q) =>
      let (more, q) ← moreItems n q.skipSpaces
      return (item :: more, q)

def moreItems : Nat → Place → ExceptT Diagnostic Option (List Item × Place)
  | 0, _ => ExceptT.mk none
  | n + 1, p =>
    match comma? p with
    | none => return ([], p)
    | some next => do
      match ← node? n .item next with
      | none => return ([], p)
      | some (item, q) =>
        let (more, q) ← moreItems n q.skipSpaces
        return (item :: more, q)

def entry? : Nat → Place → ExceptT Diagnostic Option (Option (Item.Entry × Place))
  | 0, _ => ExceptT.mk none
  | n + 1, p => do
    match ← key? p with
    | none => return none
    | some (key, q) =>
      let q := q.skipSpaces
      match q.rest with
      | ':' :: cs =>
        let q := Place.skipSpaces ⟨q.pos + 1, cs⟩
        match ← node? n .item q with
        | none => return some ((key, .null (.point q.pos)), q.skipSpaces)
        | some (value, q) => return some ((key, value), q.skipSpaces)
      | _ => throw ⟨.flowColon, .sized q.pos 1⟩

def entries : Nat → Place → ExceptT Diagnostic Option (List Item.Entry × Place)
  | 0, _ => ExceptT.mk none
  | n + 1, p => do
    match ← entry? n p with
    | none => return ([], p)
    | some (entry, q) =>
      let (more, q) ← moreEntries n q
      return (entry :: more, q)

def moreEntries : Nat → Place → ExceptT Diagnostic Option (List Item.Entry × Place)
  | 0, _ => ExceptT.mk none
  | n + 1, p =>
    match comma? p with
    | none => return ([], p)
    | some next => do
      match ← entry? n next with
      | none => return ([], p)
      | some (entry, q) =>
        let (more, q) ← moreEntries n q
        return (entry :: more, q)

end

/-- The value that a whole line is. -/
def line (p : Place) : ExceptT Diagnostic Option Item := do
  match ← node? (depthBound p.rest) .block p with
  | none => throw ⟨.noValue, .sized p.pos 1⟩
  | some (item, q) =>
    let q := q.skipSpaces
    if q.rest.isEmpty then return item
    else throw ⟨.afterValue, .between q.pos q.stop⟩

end Strict

/-- A strict reader does not come to its bound, and finds what the reader finds. -/
def Finishes {α : Type} (strict : ExceptT Diagnostic Option α) (read : Except Diagnostic α) : Prop :=
  strict.run = some read

theorem Finishes.lift {α : Type} (read : Except Diagnostic α) : Finishes (liftM read) read :=
  rfl

theorem Finishes.bind {α β : Type} {strict : ExceptT Diagnostic Option α} {read : Except Diagnostic α}
    {f : α → ExceptT Diagnostic Option β} {g : α → Except Diagnostic β} (h : Finishes strict read)
    (hf : ∀ a, read = .ok a → Finishes (f a) (g a)) : Finishes (strict >>= f) (read >>= g) := by
  obtain rfl : strict = ExceptT.mk (some read) := h
  cases read with
  | error fault => rfl
  | ok a => exact hf a rfl

theorem comma?_length_lt {p q : Place} (h : comma? p = some q) : q.rest.length < p.rest.length := by
  unfold comma? at h
  split at h
  · rename_i cs hrest
    cases h
    rw [hrest, List.length_cons]
    exact Nat.lt_succ_of_le (Place.length_skipSpaces_le ⟨p.pos + 1, cs⟩)
  · cases h

/-- The readers of values, `n` deep, where this is enough for the text that is left. -/
structure Finishing (n : Nat) : Prop where
  node? (context : Context) {p : Place} (hn : 2 * p.rest.length + 1 ≤ n) :
    Finishes (Strict.node? n context p) (node? n context p)
  items {p : Place} (hhead : p.rest.head? ≠ some ' ') (hn : 2 * p.rest.length + 2 ≤ n) :
    Finishes (Strict.items n p) (items n p)
  moreItems {p : Place} (hn : 2 * p.rest.length + 1 ≤ n) : Finishes (Strict.moreItems n p) (moreItems n p)
  entry {p : Place} (hn : 2 * p.rest.length + 1 ≤ n) : Finishes ( Strict.entry? n p) ( entry? n p)
  entries {p : Place} (hhead : p.rest.head? ≠ some ' ') (hn : 2 * p.rest.length + 2 ≤ n) :
    Finishes (Strict.entries n p) (entries n p)
  moreEntries {p : Place} (hn : 2 * p.rest.length + 1 ≤ n) : Finishes (Strict.moreEntries n p) (moreEntries n p)

theorem finishing_zero : Finishing 0 where
  node? _ hn := by omega
  items _ hn := by omega
  moreItems hn := by omega
  entry hn := by omega
  entries _ hn := by omega
  moreEntries hn := by omega

section

variable {n : Nat} (ih : Finishing n) {p : Place}
include ih

theorem node?_finishes (context : Context) (hn : 2 * p.rest.length + 1 ≤ n + 1) :
    Finishes (Strict.node? (n + 1) context p) (node? (n + 1) context p) := by
  have hopened {c : Char} {cs : List Char} (hrest : p.rest = c :: cs) :
      2 * (Place.skipSpaces ⟨p.pos + 1, cs⟩).rest.length + 2 ≤ n := by
    have hspaces := Place.length_skipSpaces_le ⟨p.pos + 1, cs⟩
    rw [hrest, List.length_cons] at hn
    dsimp only at hspaces
    omega
  by_cases hlist : ∃ cs, p.rest = '[' :: cs
  · obtain ⟨cs, hrest⟩ := hlist
    simp only [Strict.node?, node?, hrest]
    refine (ih.items (Place.skipSpaces_head _) (hopened hrest)).bind fun found _ => ?_
    exact (Finishes.lift (close ']' p.pos found.2)).bind fun _ _ => rfl
  by_cases hmap : ∃ cs, p.rest = '\x7b' :: cs
  · obtain ⟨cs, hrest⟩ := hmap
    simp only [Strict.node?, node?, hrest]
    refine (ih.entries (Place.skipSpaces_head _) (hopened hrest)).bind fun found _ => ?_
    exact (Finishes.lift (close '\x7d' p.pos found.2)).bind fun _ _ => rfl
  · -- neither bracket opens here, so both matches come to their last case
    have hnoList (cs : List Char) (h : p.rest = '[' :: cs) : False := hlist ⟨cs, h⟩
    have hnoMap (cs : List Char) (h : p.rest = '\x7b' :: cs) : False := hmap ⟨cs, h⟩
    simp only [Strict.node?, node?]
    exact .lift _

theorem moreItems_after {context : Context} {q : Place} {item : Item} (hhead : p.rest.head? ≠ some ' ')
    (hnode : node? n context p = .ok (some (item, q))) (hn : 2 * p.rest.length + 1 ≤ n) :
    Finishes (Strict.moreItems n q.skipSpaces) (moreItems n q.skipSpaces) := by
  have hq := ((laying p n).node? (.refl p) hhead hnode).2.2.length_le
  have hspaces := q.length_skipSpaces_le
  exact ih.moreItems (by omega)

theorem items_finish (hhead : p.rest.head? ≠ some ' ') (hn : 2 * p.rest.length + 2 ≤ n + 1) :
    Finishes (Strict.items (n + 1) p) (items (n + 1) p) := by
  rw [Strict.items, items]
  refine (ih.node? .item (by omega)).bind fun found hnode => ?_
  cases found with
  | none => rfl
  | some found => exact (moreItems_after ih hhead hnode (by omega)).bind fun _ _ => rfl

theorem moreItems_finish (hn : 2 * p.rest.length + 1 ≤ n + 1) :
    Finishes (Strict.moreItems (n + 1) p) (moreItems (n + 1) p) := by
  rw [Strict.moreItems, moreItems]
  cases hcomma : comma? p with
  | none => rfl
  | some next =>
    have hnext := comma?_length_lt hcomma
    refine (ih.node? .item (by omega)).bind fun found hnode => ?_
    cases found with
    | none => rfl
    | some found => exact (moreItems_after ih (comma?_leads hcomma).2 hnode (by omega)).bind fun _ _ => rfl

theorem entry?_finishes (hn : 2 * p.rest.length + 1 ≤ n + 1) : Finishes ( Strict.entry? (n + 1) p) ( entry? (n + 1) p) := by
  rw [ Strict.entry?, entry?]
  refine (Finishes.lift (key? p)).bind fun found hkey => ?_
  cases found with
  | none => rfl
  | some found =>
    have hq := (leads_of_key? hkey).length_le
    have hspaces := found.2.length_skipSpaces_le
    dsimp only
    generalize found.2.skipSpaces = q at hspaces
    by_cases hcolon : ∃ cs, q.rest = ':' :: cs
    · obtain ⟨cs, hrest⟩ := hcolon
      have hvalue := Place.length_skipSpaces_le ⟨q.pos + 1, cs⟩
      rw [hrest, List.length_cons] at hspaces
      dsimp only at hvalue
      simp only [hrest]
      refine (ih.node? .item (by omega)).bind fun value _ => ?_
      cases value <;> rfl
    · have hnoColon (cs : List Char) (h : q.rest = ':' :: cs) : False := hcolon ⟨cs, h⟩
      simp only
      rfl

theorem moreEntries_after {q : Place} {e : Item.Entry} (hhead : p.rest.head? ≠ some ' ')
    (hentry : ( entry? n p) = .ok (some (e, q))) (hn : 2 * p.rest.length + 1 ≤ n) :
    Finishes (Strict.moreEntries n q) (moreEntries n q) := by
  have hq := ((laying p n).entry (.refl p) hhead hentry).2.leads.length_le
  exact ih.moreEntries (by omega)

theorem entries_finish (hhead : p.rest.head? ≠ some ' ') (hn : 2 * p.rest.length + 2 ≤ n + 1) :
    Finishes (Strict.entries (n + 1) p) (entries (n + 1) p) := by
  rw [Strict.entries, entries]
  refine (ih.entry (by omega)).bind fun found hentry => ?_
  cases found with
  | none => rfl
  | some found => exact (moreEntries_after ih hhead hentry (by omega)).bind fun _ _ => rfl

theorem moreEntries_finish (hn : 2 * p.rest.length + 1 ≤ n + 1) :
    Finishes (Strict.moreEntries (n + 1) p) (moreEntries (n + 1) p) := by
  rw [Strict.moreEntries, moreEntries]
  cases hcomma : comma? p with
  | none => rfl
  | some next =>
    have hnext := comma?_length_lt hcomma
    refine (ih.entry (by omega)).bind fun found hentry => ?_
    cases found with
    | none => rfl
    | some found => exact (moreEntries_after ih (comma?_leads hcomma).2 hentry (by omega)).bind fun _ _ => rfl

end

theorem finishing (n : Nat) : Finishing n := by
  induction n with
  | zero => exact finishing_zero
  | succ n ih =>
    exact {
      node? := fun context _ hn => node?_finishes ih context hn
      items := items_finish ih
      moreItems := moreItems_finish ih
      entry := entry?_finishes ih
      entries := entries_finish ih
      moreEntries := moreEntries_finish ih }

theorem line_finishes (p : Place) : Finishes (Strict.line p) (line p) := by
  unfold Strict.line line
  refine ((finishing _).node? .block (by unfold depthBound; omega)).bind fun found _ => ?_
  cases found with
  | none => rfl
  | some found =>
    dsimp only
    split <;> rfl

end Flow

/-! ## Blocks -/

namespace Block.Strict

/-- The value whose text begins at `start` on a line indented by `indent`. -/
def lineValue (text : List Char) (start indent : Nat) (rest : List Line) : Option (Found Item) := do
  let collection := match text with
    | '[' :: _ | '\x7b' :: _ => true
    | _ => false
  let depth := Flow.depthAfter 0 none ' ' text
  let (more, rest) :=
    if collection && depth != 0 then continuation indent depth (start + Text.width text) rest
    else ([], rest)
  match ← (Flow.Strict.line ⟨start, text ++ more⟩).run with
  | .ok item => return ⟨item, rest, Flow.repeatedKeys item⟩
  | .error fault => return ⟨.null (.point start), rest, [fault]⟩

mutual

/-- The block that begins with `line`. -/
def block : Nat → Line → List Line → Option (Found Item)
  | 0, _, _ => none
  | n + 1, line, rest =>
    if line.isSequenceEntry then sequence n line rest
    else if line.keyed?.isSome then mapping n line rest
    else do
      let item ← lineValue line.text line.start line.indent rest
      let (rest, faults) := skipDeeper line.indent item.rest
      return ⟨item.value, rest, item.faults ++ faults⟩

/-- The value of an entry with nothing behind it: a deeper block, or null. -/
def nested : Nat → (indent at_ : Nat) → List Line → Option (Found Item)
  | 0, _, _, _ => none
  | n + 1, indent, at_, rest =>
    match rest with
    | next :: more => if indent < next.indent then block n next more else some ⟨.null (.point at_), rest, []⟩
    | [] => some ⟨.null (.point at_), [], []⟩

def sequence : Nat → Line → List Line → Option (Found Item)
  | 0, _, _ => none
  | n + 1, line, rest => do
    let items ← sequenceItems n line.indent (line :: rest)
    let stop := match items.value.getLast? with
      | some item => max item.span.stop (line.start + 1)
      | none => line.start + 1
    return ⟨.seq items.value (.between line.start stop), items.rest, items.faults⟩

/-- The items of a sequence at one indentation. -/
def sequenceItems : Nat → Nat → List Line → Option (Found (List Item))
  | 0, _, _ => none
  | _ + 1, _, [] => some ⟨[], [], []⟩
  | n + 1, indent, line :: rest =>
    if line.indent != indent || !line.isSequenceEntry then some ⟨[], line :: rest, []⟩
    else do
      let content := Text.trimStart (line.text.drop 1)
      let column := Text.width line.text - Text.width content
      let inner : Line := ⟨indent + column, content, line.start + column⟩
      let item ← (if content.isEmpty then nested n indent line.stop rest
        else if inner.isSequenceEntry || inner.keyed?.isSome then block n inner rest
        else lineValue content inner.start indent rest)
      let (rest, faults) := skipDeeper indent item.rest
      let more ← sequenceItems n indent rest
      return ⟨item.value :: more.value, more.rest, item.faults ++ faults ++ more.faults⟩

def mapping : Nat → Line → List Line → Option (Found Item)
  | 0, _, _ => none
  | n + 1, line, rest => do
    let entries ← mappingEntries n line.indent [] (line :: rest)
    let stop := match entries.value.getLast? with
      | some (key, value) => max value.span.stop key.span.stop
      | none => line.start
    return ⟨.map entries.value (.between line.start stop), entries.rest, entries.faults⟩

/-- The entries of a mapping at one indentation, after the keys `seen`. -/
def mappingEntries : Nat → Nat → List (Spanned String) → List Line → Option (Found (List Item.Entry))
  | 0, _, _, _ => none
  | _ + 1, _, _, [] => some ⟨[], [], []⟩
  | n + 1, indent, seen, line :: rest =>
    if line.indent != indent then some ⟨[], line :: rest, []⟩
    else match line.keyed? with
      | none => do
        let (rest, faults) := skipDeeper indent rest
        let more ← mappingEntries n indent seen rest
        return ⟨more.value, more.rest, ⟨.notAnEntry, line.span⟩ :: faults ++ more.faults⟩
      | some ⟨key, value, valueStart⟩ => do
        let item ← (if !value.isEmpty then lineValue value valueStart indent rest
          else match rest with
            | next :: more =>
              if next.indent == indent && next.isSequenceEntry then sequence n next more
              else nested n indent (key.span.stop + 1) rest
            | [] => nested n indent (key.span.stop + 1) rest)
        let repeated := (Flow.duplicate? seen key).toList
        let (rest, faults) := skipDeeper indent item.rest
        let more ← mappingEntries n indent (seen ++ [key]) rest
        return ⟨(key, item.value) :: more.value, more.rest, item.faults ++ repeated ++ faults ++ more.faults⟩

end

/-- What is read behind and below a dash. -/
def bulletItem (n : Nat) (line : Line) (rest : List Line) : Option (Found Item) :=
  let inner := Ledger.inner line
  if inner.text.isEmpty then nested n line.indent line.stop rest
  else if inner.isSequenceEntry || inner.keyed?.isSome then block n inner rest
  else lineValue inner.text inner.start line.indent rest

/-- What is read behind and below a key. -/
def entryItem (n indent : Nat) (k : Line.Keyed) (rest : List Line) : Option (Found Item) :=
  if !k.value.isEmpty then lineValue k.value k.valueStart indent rest
  else match rest with
    | next :: more =>
      if next.indent == indent && next.isSequenceEntry then sequence n next more
      else nested n indent (k.key.span.stop + 1) rest
    | [] => nested n indent (k.key.span.stop + 1) rest

/-- The tree of a document's lines. -/
def ofLines (lines : List Line) : Option (Item × List Diagnostic) :=
  match lines with
  | [] => some (.null (.point 0), [])
  | line :: rest => do
    let root ← block (depthBound lines) line rest
    let left := match root.rest with
      | [] => []
      | line :: _ => [⟨.strayIndentation, line.span⟩]
    return (root.value, root.faults ++ left)

/-- The tree of a document's text, or everything that is wrong with its layout. -/
def read (text : List Char) : Option (Except (List Diagnostic) Item) := do
  let (lines, tabs) := Line.ofDocument text
  let (root, faults) ← ofLines lines
  match tabs ++ faults with
  | [] => return .ok root
  | faults => return .error faults

end Block.Strict

namespace Ledger

theorem lineValue_finishes (text : List Char) (start indent : Nat) (rest : List Line) :
    Block.Strict.lineValue text start indent rest = some (Block.lineValue text start indent rest) := by
  have hline (p : Place) : (Flow.Strict.line p).run = some (Flow.line p) := Flow.line_finishes p
  unfold Block.Strict.lineValue Block.lineValue
  dsimp only
  generalize Flow.depthAfter 0 none ' ' text = depth
  generalize (_ && depth != 0) = isOpen
  generalize (if isOpen then Block.continuation indent depth (start + width text) rest else ([], rest)) = joined
  rw [hline]
  cases Flow.line ⟨start, text ++ joined.1⟩ <;> rfl

/-- The readers of blocks, `n` deep, where this is enough for the lines that are left: none of them
    comes to its bound. -/
structure Finishing (n : Nat) : Prop where
  block {line : Line} {rest : List Line} (hn : 3 * size (line :: rest) + 3 ≤ n) :
    Block.Strict.block n line rest = some (Block.block n line rest)
  nested (indent at_ : Nat) {rest : List Line} (hn : 3 * size rest + 4 ≤ n) :
    Block.Strict.nested n indent at_ rest = some (Block.nested n indent at_ rest)
  sequence {line : Line} {rest : List Line} (hn : 3 * size (line :: rest) + 2 ≤ n) :
    Block.Strict.sequence n line rest = some (Block.sequence n line rest)
  sequenceItems (indent : Nat) {ls : List Line} (hn : 3 * size ls + 1 ≤ n) :
    Block.Strict.sequenceItems n indent ls = some (Block.sequenceItems n indent ls)
  mapping {line : Line} {rest : List Line} (hn : 3 * size (line :: rest) + 2 ≤ n) :
    Block.Strict.mapping n line rest = some (Block.mapping n line rest)
  mappingEntries (indent : Nat) (seen : List (Spanned String)) {ls : List Line} (hn : 3 * size ls + 1 ≤ n) :
    Block.Strict.mappingEntries n indent seen ls = some (Block.mappingEntries n indent seen ls)

theorem finishing_zero : Finishing 0 where
  block hn := by omega
  nested _ _ _ hn := by omega
  sequence hn := by omega
  sequenceItems _ _ hn := by omega
  mapping hn := by omega
  mappingEntries _ _ _ hn := by omega

section

variable {n : Nat} (ih : Finishing n) {line : Line} {rest : List Line}
include ih

theorem block_finishes (hn : 3 * size (line :: rest) + 3 ≤ n + 1) :
    Block.Strict.block (n + 1) line rest = some (Block.block (n + 1) line rest) := by
  rw [Block.Strict.block, Block.block]
  split
  · exact ih.sequence (by omega)
  split
  · exact ih.mapping (by omega)
  · rw [lineValue_finishes]
    rfl

theorem nested_finishes (indent at_ : Nat) (hn : 3 * size rest + 4 ≤ n + 1) :
    Block.Strict.nested (n + 1) indent at_ rest = some (Block.nested (n + 1) indent at_ rest) := by
  cases rest with
  | nil => rw [Block.Strict.nested, Block.nested]
  | cons next more =>
    rw [Block.Strict.nested, Block.nested]
    split
    · exact ih.block (by omega)
    · rfl

theorem sequence_finishes (hn : 3 * size (line :: rest) + 2 ≤ n + 1) :
    Block.Strict.sequence (n + 1) line rest = some (Block.sequence (n + 1) line rest) := by
  rw [Block.Strict.sequence, ih.sequenceItems line.indent (by omega), Block.sequence]
  rfl

theorem bulletItem_finishes (hline : line.isSequenceEntry = true) (hn : 3 * size (line :: rest) ≤ n) :
    Block.Strict.bulletItem n line rest = some (Layout.bulletItem n line.indent line rest) := by
  have hlength := (dash_inner hline).length_lt
  rw [size_cons] at hn
  show _ = some (if (inner line).text.isEmpty then Block.nested n line.indent line.stop rest
    else if (inner line).isSequenceEntry || (inner line).keyed?.isSome then Block.block n (inner line) rest
    else Block.lineValue (inner line).text (inner line).start line.indent rest)
  unfold Block.Strict.bulletItem
  dsimp only
  split
  · exact ih.nested line.indent line.stop (by omega)
  split
  · exact ih.block (by rw [size_cons]; omega)
  · exact lineValue_finishes ..

theorem sequenceItems_finish (indent : Nat) {ls : List Line} (hn : 3 * size ls + 1 ≤ n + 1) :
    Block.Strict.sequenceItems (n + 1) indent ls = some (Block.sequenceItems (n + 1) indent ls) := by
  cases ls with
  | nil => rw [Block.Strict.sequenceItems, Block.sequenceItems]
  | cons line rest =>
    rw [size_cons] at hn
    by_cases hbegins : line.indent = indent ∧ line.isSequenceEntry = true
    · obtain ⟨rfl, hline⟩ := hbegins
      have hfits : 3 * size (line :: rest) ≤ n := by
        rw [size_cons]
        omega
      have htaken := (bulletItem_takes (accounting n) hline hfits).size_le
      have hrest := size_skipDeeper_le line.indent (Layout.bulletItem n line.indent line rest).rest
      rw [Block.Strict.sequenceItems, if_neg (by simp [hline]), Layout.sequenceItems_item rfl hline]
      refine (congrArg (· >>= _) (bulletItem_finishes ih hline hfits)).trans ?_
      show (Block.Strict.sequenceItems n line.indent
        (Block.skipDeeper line.indent (Layout.bulletItem n line.indent line rest).rest).1 >>= _) = _
      rw [ih.sequenceItems line.indent (by omega)]
      rfl
    · have hends : (line.indent != indent || !line.isSequenceEntry) = true := by
        by_cases hindent : line.indent = indent
        · simpa [hindent] using hbegins
        · simp [hindent]
      rw [Block.Strict.sequenceItems, Block.sequenceItems, if_pos hends, if_pos hends]

theorem entryItem_finishes (indent : Nat) (k : Line.Keyed) (hn : 3 * size rest + 6 ≤ n) :
    Block.Strict.entryItem n indent k rest = some (Layout.entryItem n indent k rest) := by
  have hnested := ih.nested indent (k.key.span.stop + 1) (show 3 * size rest + 4 ≤ n by omega)
  unfold Block.Strict.entryItem Layout.entryItem
  split
  · exact lineValue_finishes ..
  · cases rest with
    | nil => exact hnested
    | cons next more =>
      dsimp only
      split
      · exact ih.sequence (by omega)
      · exact hnested

theorem mappingEntries_finish (indent : Nat) (seen : List (Spanned String)) {ls : List Line} (hn : 3 * size ls + 1 ≤ n + 1) :
    Block.Strict.mappingEntries (n + 1) indent seen ls = some (Block.mappingEntries (n + 1) indent seen ls) := by
  cases ls with
  | nil => rw [Block.Strict.mappingEntries, Block.mappingEntries]
  | cons line rest =>
    rw [size_cons] at hn
    by_cases hindent : line.indent = indent
    · have hbegins : ¬(line.indent != indent) = true := by simpa using hindent
      cases hkeyed : line.keyed? with
      | none =>
        have hrest := size_skipDeeper_le indent rest
        rw [Block.Strict.mappingEntries, Block.mappingEntries, if_neg hbegins, if_neg hbegins, hkeyed]
        show (Block.Strict.mappingEntries n indent seen (Block.skipDeeper indent rest).1 >>= _) = _
        rw [ih.mappingEntries indent seen (by omega)]
        rfl
      | some k =>
        have hlength := (colon_of_keyed? hkeyed).length_pos
        have hfits : 3 * size rest + 6 ≤ n := by omega
        have htaken := (entryItem_takes (accounting n) indent (k := k) hfits).size_le
        have hrest := size_skipDeeper_le indent (Layout.entryItem n indent k rest).rest
        rw [Block.Strict.mappingEntries, if_neg hbegins, hkeyed, Layout.mappingEntries_entry hindent hkeyed]
        refine (congrArg (· >>= _) (entryItem_finishes ih indent k hfits)).trans ?_
        show (Block.Strict.mappingEntries n indent (seen ++ [k.key])
          (Block.skipDeeper indent (Layout.entryItem n indent k rest).rest).1 >>= _) = _
        rw [ih.mappingEntries indent (seen ++ [k.key]) (by omega)]
        rfl
    · have hends : (line.indent != indent) = true := by simpa using hindent
      rw [Block.Strict.mappingEntries, Block.mappingEntries, if_pos hends, if_pos hends]

theorem mapping_finishes (hn : 3 * size (line :: rest) + 2 ≤ n + 1) :
    Block.Strict.mapping (n + 1) line rest = some (Block.mapping (n + 1) line rest) := by
  rw [Block.Strict.mapping, ih.mappingEntries line.indent [] (by omega), Block.mapping]
  rfl

end

theorem finishing (n : Nat) : Finishing n := by
  induction n with
  | zero => exact finishing_zero
  | succ n ih =>
    exact {
      block := block_finishes ih
      nested := fun indent at_ _ hn => nested_finishes ih indent at_ hn
      sequence := sequence_finishes ih
      sequenceItems := sequenceItems_finish ih
      mapping := mapping_finishes ih
      mappingEntries := mappingEntries_finish ih }

theorem ofLines_finishes (ls : List Line) : Block.Strict.ofLines ls = some (Block.ofLines ls) := by
  cases ls with
  | nil => rfl
  | cons line rest =>
    have hbound : Block.depthBound (line :: rest) = 6 * (size (line :: rest) + 1) := Layout.depthBound_eq _
    unfold Block.Strict.ofLines Block.ofLines
    dsimp only
    rw [(finishing _).block (by omega)]
    rfl

theorem read_finishes (text : List Char) : Block.Strict.read text = some (Item.read text) := by
  unfold Block.Strict.read Item.read
  dsimp only
  rw [ofLines_finishes]
  dsimp only [bind, Option.bind]
  cases (Line.ofDocument text).2 ++ (Block.ofLines (Line.ofDocument text).1).2 <;> rfl

/-- Reading a text comes to an end, and whatever was reported, a ledger of all lines with something
    written on them goes with the tree. With nothing reported every one of them is consumed. -/
theorem every_line_accounted (text : List Char) :
    Block.Strict.read text = some (Item.read text) ∧
      ∃ root reported ledger,
        Item.read text = (match reported with
          | [] => .ok root
          | _ => .error reported) ∧
        lines ledger = (Line.ofDocument text).1 ∧ (lines ledger).map (·.text) = contents text ∧
        Document reported ledger root ∧ Reported reported ledger ∧ (reported = [] → Consumed ledger) := by
  obtain ⟨ledger, hlines, hdocument⟩ := ofLines_document (Line.ofDocument text).1
  have hall := hdocument ((Line.ofDocument text).2 ++ (Block.ofLines (Line.ofDocument text).1).2) (List.subset_append_right ..)
  refine ⟨read_finishes text, (Block.ofLines (Line.ofDocument text).1).1, _, ledger, ?_, hlines, ?_, hall, hall.all_reported,
    fun hnothing => (hnothing ▸ hall.all_reported).consumed⟩
  · unfold Item.read
    dsimp only
    cases (Line.ofDocument text).2 ++ (Block.ofLines (Line.ofDocument text).1).2 <;> rfl
  · rw [hlines, lines_contents]

end Ledger

end Sketchwork
