/-
  Sketchwork.Outline.Block — the tree that indentation spells.

  A block is a sequence (`- item` lines at one indentation), a mapping (`key: value` lines
  at one indentation) or a single value. Behind `- ` a further `- ` or a key opens a block
  at its own column. A collection that stays open at the end of its line goes on over the
  following deeper lines, or lines that begin with a closing bracket. Lines deeper than a
  block that are no part of it are reported and skipped, so nothing is dropped in silence.

  Readers return what they read, the lines after it and the diagnostics in order. They
  recurse on a bound that `depthBound` makes large enough for any lines: a reader that
  opens another one has taken a line, or the characters before an inner entry.
-/
import Sketchwork.Outline.Flow
import Sketchwork.Outline.Line

namespace Sketchwork.Block

/-- What a reader found: a result, the lines after it, and what was wrong on the way. -/
structure Found (α : Type) where
  value : α
  rest : List Line
  faults : List Diagnostic
  deriving Repr

/-! ## Values on a line -/

/-- The continuation of a collection that is `depth` brackets deep at `stop`. The gaps between
    lines become spaces, so offsets stay those of the document. -/
def continuation (indent depth stop : Nat) : List Line → List Char × List Line
  | [] => ([], [])
  | line :: rest =>
    let closes := match line.text with
      | ']' :: _ | '}' :: _ => true
      | _ => false
    if depth != 0 && (indent < line.indent || closes) then
      let (more, rest) := continuation indent (Flow.depthAfter depth none ' ' line.text) line.stop rest
      (List.replicate (line.start - stop) ' ' ++ line.text ++ more, rest)
    else ([], line :: rest)

/-- The value whose text begins at `start` on a line indented by `indent`. -/
def lineValue (text : List Char) (start indent : Nat) (rest : List Line) : Found Item :=
  let collection := match text with
    | '[' :: _ | '{' :: _ => true
    | _ => false
  let depth := Flow.depthAfter 0 none ' ' text
  let (more, rest) :=
    if collection && depth != 0 then continuation indent depth (start + Text.width text) rest
    else ([], rest)
  match Flow.line ⟨start, text ++ more⟩ with
  | .ok item => ⟨item, rest, Flow.repeatedKeys item⟩
  | .error fault => ⟨.null (.point start), rest, [fault]⟩

/-- Skips the lines deeper than `indent` and reports the first of them. -/
def skipDeeper (indent : Nat) : List Line → List Line × List Diagnostic
  | [] => ([], [])
  | line :: rest =>
    if indent < line.indent then
      (rest.dropWhile fun l => indent < l.indent, [⟨.strayIndentation, line.span⟩])
    else (line :: rest, [])

/-! ## Blocks -/

mutual

/-- The block that begins with `line`. -/
def block : Nat → Line → List Line → Found Item
  | 0, line, rest => ⟨.null (.point line.start), line :: rest, []⟩
  | n + 1, line, rest =>
    if line.isSequenceEntry then sequence n line rest
    else if line.keyed?.isSome then mapping n line rest
    else
      let item := lineValue line.text line.start line.indent rest
      let (rest, faults) := skipDeeper line.indent item.rest
      ⟨item.value, rest, item.faults ++ faults⟩

/-- The value of an entry with nothing behind it: a deeper block, or null. -/
def nested : Nat → (indent at_ : Nat) → List Line → Found Item
  | 0, _, at_, rest => ⟨.null (.point at_), rest, []⟩
  | n + 1, indent, at_, rest =>
    match rest with
    | next :: more => if indent < next.indent then block n next more else ⟨.null (.point at_), rest, []⟩
    | [] => ⟨.null (.point at_), [], []⟩

def sequence : Nat → Line → List Line → Found Item
  | 0, line, rest => ⟨.null (.point line.start), line :: rest, []⟩
  | n + 1, line, rest =>
    let items := sequenceItems n line.indent (line :: rest)
    let stop := match items.value.getLast? with
      | some item => max item.span.stop (line.start + 1)
      | none => line.start + 1
    ⟨.seq items.value (.between line.start stop), items.rest, items.faults⟩

/-- The items of a sequence at one indentation. -/
def sequenceItems : Nat → Nat → List Line → Found (List Item)
  | 0, _, lines => ⟨[], lines, []⟩
  | _ + 1, _, [] => ⟨[], [], []⟩
  | n + 1, indent, line :: rest =>
    if line.indent != indent || !line.isSequenceEntry then ⟨[], line :: rest, []⟩
    else
      let content := Text.trimStart (line.text.drop 1)
      let column := Text.width line.text - Text.width content
      let inner : Line := ⟨indent + column, content, line.start + column⟩
      let item :=
        if content.isEmpty then nested n indent line.stop rest
        else if inner.isSequenceEntry || inner.keyed?.isSome then block n inner rest
        else lineValue content inner.start indent rest
      let (rest, faults) := skipDeeper indent item.rest
      let more := sequenceItems n indent rest
      ⟨item.value :: more.value, more.rest, item.faults ++ faults ++ more.faults⟩

def mapping : Nat → Line → List Line → Found Item
  | 0, line, rest => ⟨.null (.point line.start), line :: rest, []⟩
  | n + 1, line, rest =>
    let entries := mappingEntries n line.indent [] (line :: rest)
    let stop := match entries.value.getLast? with
      | some (key, value) => max value.span.stop key.span.stop
      | none => line.start
    ⟨.map entries.value (.between line.start stop), entries.rest, entries.faults⟩

/-- The entries of a mapping at one indentation, after the keys `seen`. -/
def mappingEntries : Nat → Nat → List (Spanned String) → List Line → Found (List Item.Entry)
  | 0, _, _, lines => ⟨[], lines, []⟩
  | _ + 1, _, _, [] => ⟨[], [], []⟩
  | n + 1, indent, seen, line :: rest =>
    if line.indent != indent then ⟨[], line :: rest, []⟩
    else match line.keyed? with
      | none =>
        let (rest, faults) := skipDeeper indent rest
        let more := mappingEntries n indent seen rest
        ⟨more.value, more.rest, ⟨.notAnEntry, line.span⟩ :: faults ++ more.faults⟩
      | some ⟨key, value, valueStart⟩ =>
        let item :=
          if !value.isEmpty then lineValue value valueStart indent rest
          else match rest with
            | next :: more =>
              if next.indent == indent && next.isSequenceEntry then sequence n next more
              else nested n indent (key.span.stop + 1) rest
            | [] => nested n indent (key.span.stop + 1) rest
        let repeated := (Flow.duplicate? seen key).toList
        let (rest, faults) := skipDeeper indent item.rest
        let more := mappingEntries n indent (seen ++ [key]) rest
        ⟨(key, item.value) :: more.value, more.rest, item.faults ++ repeated ++ faults ++ more.faults⟩

end

/-- A number of nested readers that no lines exceed. -/
def depthBound (lines : List Line) : Nat :=
  6 * lines.foldl (fun n l => n + l.text.length + 1) 1

/-- The tree of a document's lines. A line left behind belongs to no block. -/
def ofLines (lines : List Line) : Item × List Diagnostic :=
  match lines with
  | [] => (.null (.point 0), [])
  | line :: rest =>
    let root := block (depthBound lines) line rest
    let left := match root.rest with
      | [] => []
      | line :: _ => [⟨.strayIndentation, line.span⟩]
    (root.value, root.faults ++ left)

end Block

/-- The tree of a document's text, or everything that is wrong with its layout. -/
def Item.read (text : List Char) : Except (List Diagnostic) Item :=
  let (lines, tabs) := Line.ofDocument text
  let (root, faults) := Block.ofLines lines
  match tabs ++ faults with
  | [] => .ok root
  | faults => .error faults

end Sketchwork
