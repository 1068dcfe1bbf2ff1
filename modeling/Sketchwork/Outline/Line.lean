/-
  Sketchwork.Outline.Line — the lines of a document that hold content.

  Each line loses its comment and the blanks at its end; blank lines and the markers
  `---` and `...` are dropped. A line knows its indentation and the offset of its first
  character. Tabs may not indent.
-/
import Sketchwork.Diagnostic
import Sketchwork.Text.Blank

namespace Sketchwork

structure Line where
  indent : Nat
  text : List Char
  /-- The offset of the first character of `text`. -/
  start : Nat
  deriving DecidableEq, Repr

namespace Line

/-- The offset behind the line. -/
def stop (l : Line) : Nat :=
  l.start + Text.width l.text

def span (l : Line) : Span :=
  .sized l.start (Text.width l.text)

def isSequenceEntry (l : Line) : Bool :=
  match l.text with
  | ['-'] => true
  | '-' :: ' ' :: _ => true
  | _ => false

/-- The characters around the first colon that ends a key: one before a space, or the last
    character. -/
def splitAtColon : List Char → Option (List Char × List Char)
  | [] => none
  | [':'] => some ([], [])
  | ':' :: ' ' :: cs => some ([], cs)
  | c :: cs => (splitAtColon cs).map fun (key, value) => (c :: key, value)

/-- A key and the text of its value, with the offset of that text. -/
structure Keyed where
  key : Spanned String
  value : List Char
  valueStart : Nat
  deriving Repr

/-- The line as `key: value` or `key:`. -/
def keyed? (l : Line) : Option Keyed :=
  match l.text with
  | '"' :: _ | '\'' :: _ | '[' :: _ | '{' :: _ | '-' :: _ => none
  | cs =>
    match splitAtColon cs with
    | none => none
    | some (key, value) =>
      let key := Text.trimEnd key
      let value := Text.trimStart value
      if key.isEmpty then none
      else some
        { key := ⟨String.ofList key, .sized l.start (Text.width key)⟩
          value := value
          valueStart := l.stop - Text.width value }

/-! ## From text to lines -/

/-- The text before a comment. A `#` begins one after a blank, outside quotes; a quote opens
    after a blank, a bracket, a comma or a colon. -/
def withoutComment (quote : Option Char) (previous : Char) : List Char → List Char
  | [] => []
  | c :: cs =>
    let next := if previous == '\\' && c == '\\' then ' ' else c
    match quote with
    | some q =>
      let escaped := q == '"' && previous == '\\'
      let open_ := if q == '"' && c == '\\' && previous != '\\' then some q
        else if c == q && !escaped then none
        else some q
      c :: withoutComment open_ next cs
    | none =>
      if (c == '"' || c == '\'') && (Text.isBlank previous || "[\x7b,:".contains previous) then
        c :: withoutComment (some c) next cs
      else if c == '#' && Text.isBlank previous then []
      else c :: withoutComment none next cs

def isMarker (cs : List Char) : Bool :=
  cs == ['-', '-', '-'] || cs == ['.', '.', '.']

def isIndentation (c : Char) : Bool :=
  c == ' ' || c == '\t'

/-- One line of the text that begins at `offset`: its content, if it has any, and a tab in
    its indentation. -/
def ofText (offset : Nat) (raw : List Char) : Option Line × Option Diagnostic :=
  let raw := Text.dropEndWhile (fun c => c == '\n' || c == '\r') raw
  let leading := raw.takeWhile isIndentation
  let tab := leading.findIdx? (· == '\t')
  let content := Text.trimEnd (withoutComment none ' ' (raw.dropWhile isIndentation))
  let line :=
    if content.isEmpty || isMarker content then none
    else some ⟨leading.length, content, offset + leading.length⟩
  (line, tab.map fun i => ⟨.tabIndentation, .sized (offset + i) 1⟩)

/-- The text cut behind every line break. -/
def pieces : List Char → List (List Char)
  | [] => []
  | c :: cs =>
    if c == '\n' then [c] :: pieces cs
    else match pieces cs with
      | [] => [[c]]
      | piece :: more => (c :: piece) :: more

/-- The lines of pieces that begin at `offset`, and the tabs that indent them. -/
def ofPieces (offset : Nat) : List (List Char) → List Line × List Diagnostic
  | [] => ([], [])
  | piece :: more =>
    let (line, fault) := ofText offset piece
    let (lines, faults) := ofPieces (offset + Text.width piece) more
    (line.toList ++ lines, fault.toList ++ faults)

/-- The content lines of a document. -/
def ofDocument (text : List Char) : List Line × List Diagnostic :=
  ofPieces 0 (pieces text)

end Line

end Sketchwork
