/-
  Sketchwork.Config.Toml — the TOML that configurations are written in.

  A text is read as a list of statements: headers of tables and entries under dotted keys.
  A value is a text, a number, a truth value, a moment, an array of values or an inline
  table. In arrays and inline tables, blanks, comments and line breaks may stand around every
  value, key and mark. Numbers need the form of one, whatever their size; what a field can
  hold is for the field to say.
-/
import Sketchwork.Config.Moment
import Sketchwork.Config.Numeral

namespace Sketchwork.Toml

/-- A key with dots between its parts. -/
abbrev Path := List String

inductive Value where
  | text (value : String)
  | number (value : Numeral)
  | bool (value : Bool)
  /-- A date, a time of day or both. -/
  | moment
  | array (items : List Value)
  | table (entries : List (Path × Value))
  deriving Repr

inductive Statement where
  | header (path : Path)
  | entry (path : Path) (value : Value)
  deriving Repr

/-- A part of a text and what follows it; none where the text is malformed. -/
abbrev Reader (α : Type) := List Char → Option (α × List Char)

/-! ## Blanks, comments and ends of lines -/

def isBlank (c : Char) : Bool :=
  c == ' ' || c == '\t'

def skipBlanks (cs : List Char) : List Char :=
  cs.dropWhile isBlank

/-- A control character that may stand in no comment and no string. -/
def isControl (c : Char) : Bool :=
  (c.toNat < 0x20 && c != '\t') || c.toNat == 0x7F

/-- What follows a line break or the end of the text. -/
def lineBreak? : List Char → Option (List Char)
  | [] => some []
  | '\n' :: cs => some cs
  | '\r' :: '\n' :: cs => some cs
  | _ => none

/-- What follows the rest of a line that holds nothing more than a comment. -/
def endLine? (cs : List Char) : Option (List Char) :=
  match skipBlanks cs with
  | '#' :: cs => lineBreak? (cs.dropWhile fun c => !isControl c)
  | cs => lineBreak? cs

/-! ## Strings -/

/-- The character with a number in hexadecimal digits. -/
def ofHex? (ds : List Char) (count : Nat) : Option Char := do
  let n ← (← ds.mapM Text.hexValue?).foldlM (fun n d => some (16 * n + d)) 0
  if ds.length = count && n.isValidChar then some (Char.ofNat n) else none

/-- The character that an escape of one letter stands for. -/
def escape? : Char → Option Char
  | 'b' => some (Char.ofNat 8)
  | 't' => some '\t'
  | 'n' => some '\n'
  | 'f' => some (Char.ofNat 12)
  | 'r' => some '\r'
  | 'e' => some (Char.ofNat 27)
  | '"' => some '"'
  | '\\' => some '\\'
  | _ => none

/-- How many hexadecimal digits follow the letter of an escape. -/
def escapeWidth? : Char → Option Nat
  | 'x' => some 2
  | 'u' => some 4
  | 'U' => some 8
  | _ => none

/-- The character behind a backslash. -/
def escaped : Reader Char
  | [] => none
  | c :: cs =>
    match escapeWidth? c with
    | some n => do return (← ofHex? (cs.take n) n, cs.drop n)
    | none => do return (← escape? c, cs)

/-- Whether only blanks stand before the end of the line. -/
def endsLine (cs : List Char) : Bool :=
  match skipBlanks cs with
  | [] => false
  | rest => (lineBreak? rest).isSome

/-- What follows blanks and line breaks. -/
def skipBreaks : List Char → List Char
  | '\r' :: '\n' :: cs => skipBreaks cs
  | c :: cs => if isBlank c || c == '\n' then skipBreaks cs else c :: cs
  | [] => []

/-- The delimiter of a string, doubled quotes and single ones. -/
structure Quoting where
  quote : Char
  /-- Whether it is written three times and the string may run over lines. -/
  multiline : Bool
  deriving DecidableEq

/-- Up to two quotes may stand before the three that close a string of several lines. -/
def closing? (q : Quoting) (cs : List Char) : Option (List Char × List Char) :=
  let run := (cs.takeWhile (· == q.quote)).length
  if !q.multiline then if 0 < run then some ([], cs.drop 1) else none
  else if run < 3 then none
  else
    let n := min run 5
    some (List.replicate (n - 3) q.quote, cs.drop n)

/-- The characters of a string up to its closing quotes. -/
def stringBody (q : Quoting) : Nat → Reader (List Char)
  | 0, _ => none
  | fuel + 1, cs =>
    match closing? q cs, cs with
    | some (content, rest), _ => some (content, rest)
    | none, [] => none
    | none, '\\' :: cs =>
      if q.quote == '\'' then do
        let (s, rest) ← stringBody q fuel cs
        return ('\\' :: s, rest)
      else if q.multiline && endsLine cs then
        stringBody q fuel (skipBreaks cs)
      else do
        let (c, rest) ← escaped cs
        let (s, rest) ← stringBody q fuel rest
        return (c :: s, rest)
    | none, c :: cs =>
      let breaks := c == '\n' || (c == '\r' && cs.head? == some '\n')
      if isControl c && !(q.multiline && breaks) then none
      else do
        let (s, rest) ← stringBody q fuel cs
        return (c :: s, rest)

/-- A string with its opening quotes; a line break right behind three quotes is left out. -/
def string (quote : Char) (multiline : Bool) : Reader String := fun cs => do
  let open_ := List.replicate (if multiline then 3 else 1) quote
  guard (open_.isPrefixOf cs)
  let body := cs.drop open_.length
  let body := if multiline && !body.isEmpty then (lineBreak? body).getD body else body
  let (s, rest) ← stringBody ⟨quote, multiline⟩ (body.length + 1) body
  return (String.ofList s, rest)

/-- A string in either quotes on one line. -/
def lineString : Reader String := fun cs =>
  string '"' false cs <|> string '\'' false cs

def anyString : Reader String := fun cs =>
  match cs with
  | '"' :: '"' :: '"' :: _ => string '"' true cs
  | '\'' :: '\'' :: '\'' :: _ => string '\'' true cs
  | _ => lineString cs

/-! ## Keys -/

def isBareKey (c : Char) : Bool :=
  c.isAlphanum || c == '-' || c == '_'

def simpleKey : Reader String := fun cs =>
  match cs.takeWhile isBareKey with
  | [] => lineString cs
  | name => some (String.ofList name, cs.dropWhile isBareKey)

/-- Keys with dots between them; blanks may stand around the dots and behind the last key. -/
def path : Nat → Reader Path
  | 0, _ => none
  | fuel + 1, cs => do
    let (key, rest) ← simpleKey cs
    match skipBlanks rest with
    | '.' :: rest =>
      let (keys, rest) ← path fuel (skipBlanks rest)
      return (key :: keys, rest)
    | rest => return ([key], rest)

/-! ## Numbers and words -/

/-- The value of a run of characters without quotes. -/
def plain? (cs : List Char) : Option Value :=
  if cs = ['t', 'r', 'u', 'e'] then some (.bool true)
  else if cs = ['f', 'a', 'l', 's', 'e'] then some (.bool false)
  else if Moment.isMoment cs then some .moment
  else (Numeral.read? cs).map .number

/-- A character that ends a run of others. -/
def isStop (c : Char) : Bool :=
  c ∈ ['=', ',', '[', ']', '\x7b', '\x7d', ' ', '\t', '#', '\r', '\n']

/-- A run of characters without quotes in front. It has no blanks, but for one between a date
    and a time of day. -/
def spanPlain (cs : List Char) : List Char × List Char :=
  let part (c : Char) := !isStop c
  let run := cs.takeWhile part
  let rest := cs.dropWhile part
  match rest with
  | ' ' :: tail =>
    let time := tail.takeWhile part
    if Moment.isDate run && !time.isEmpty then (run ++ ' ' :: time, tail.dropWhile part) else (run, rest)
  | _ => (run, rest)

/-- A value that holds no other ones. -/
def scalar : Reader Value := fun cs =>
  match cs with
  | '"' :: _ | '\'' :: _ => (anyString cs).map fun (s, rest) => (.text s, rest)
  | _ =>
    let (run, rest) := spanPlain cs
    (plain? run).map fun value => (value, rest)

/-! ## Tables and statements -/

/-- What follows blanks, comments and line breaks. -/
def skipLines : Nat → List Char → List Char
  | 0, cs => cs
  | fuel + 1, cs =>
    match skipBlanks cs with
    | [] => []
    | rest =>
      match endLine? rest with
      | some next => skipLines fuel next
      | none => rest

/-- Whether neither of two keys names what the other one does, or a part of it. -/
def apart (p q : Path) : Bool :=
  !p.isPrefixOf q && !q.isPrefixOf p

def allApart : List Path → Bool
  | [] => true
  | p :: ps => ps.all (apart p) && allApart ps

/-- How many arrays and inline tables may stand inside one another. -/
def maxLevels : Nat :=
  80

mutual

/-- A value in which `levels` arrays and inline tables may stand inside one another. -/
def valueWithin : (fuel levels : Nat) → Reader Value
  | 0, _, _ => none
  | fuel + 1, levels, cs =>
    match cs, levels with
    | '[' :: _, 0 | '\x7b' :: _, 0 => none
    | '[' :: cs, levels + 1 => (items fuel levels cs).map fun (vs, rest) => (.array vs, rest)
    | '\x7b' :: cs, levels + 1 => do
      let (entries, rest) ← entries fuel levels cs
      if allApart (entries.map (·.1)) then some (.table entries, rest) else none
    | cs, _ => scalar cs

/-- The items of an array behind its opening bracket or a comma. -/
def items : (fuel levels : Nat) → Reader (List Value)
  | 0, _, _ => none
  | fuel + 1, levels, cs =>
    match skipLines cs.length cs with
    | ']' :: rest => some ([], rest)
    | cs => do
      let (item, rest) ← valueWithin fuel levels cs
      match skipLines rest.length rest with
      | ',' :: rest =>
        let (more, rest) ← items fuel levels rest
        return (item :: more, rest)
      | ']' :: rest => return ([item], rest)
      | _ => none

/-- The entries of an inline table behind its opening brace or a comma. -/
def entries : (fuel levels : Nat) → Reader (List (Path × Value))
  | 0, _, _ => none
  | fuel + 1, levels, cs =>
    match skipLines cs.length cs with
    | '\x7d' :: rest => some ([], rest)
    | cs => do
      let (key, rest) ← path (cs.length + 1) cs
      match skipLines rest.length rest with
      | '=' :: rest =>
        let (value, rest) ← valueWithin fuel levels (skipLines rest.length rest)
        match skipLines rest.length rest with
        | ',' :: rest =>
          let (more, rest) ← entries fuel levels rest
          return ((key, value) :: more, rest)
        | '\x7d' :: rest => return ([(key, value)], rest)
        | _ => none
      | _ => none

end

/-- A value. Every reader takes a character before it opens the next but one. -/
def value : Reader Value := fun cs =>
  valueWithin (2 * cs.length + 2) maxLevels cs

def statement : Reader Statement := fun cs =>
  match cs with
  | '[' :: cs => do
    let cs := skipBlanks cs
    match ← path (cs.length + 1) cs with
    | (key, ']' :: rest) => some (.header key, rest)
    | _ => none
  | _ => do
    match ← path (cs.length + 1) cs with
    | (key, '=' :: rest) =>
      let (v, rest) ← value (skipBlanks rest)
      return (.entry key v, rest)
    | _ => none

/-- The statements of lines; each takes what is left of its line. -/
def statements : Nat → List Char → Option (List Statement)
  | 0, _ => none
  | fuel + 1, cs =>
    match skipLines cs.length cs with
    | [] => some []
    | cs => do
      let (first, rest) ← statement cs
      let rest ← endLine? rest
      return first :: (← statements fuel rest)

/-- The statements of a text, a byte order mark in front of it or not. -/
def read? (text : String) : Option (List Statement) :=
  let cs := text.toList
  let cs := if cs.head? == some (Char.ofNat 0xFEFF) then cs.tail else cs
  statements (cs.length + 1) cs

end Sketchwork.Toml
