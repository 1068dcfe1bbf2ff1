/-
  Sketchwork.Outline.Flow — values written on a line: flow collections and scalars.

  `[a, b]` is a list, `{a: 1}` a map (a value left out is null, a comma may follow the last
  item), `"…"` and `'…'` are texts, and anything else is a plain scalar: null, a boolean, a
  decimal number, or its own text. Inside a collection a plain scalar goes on through
  balanced brackets and quotes, so a call with commas is one item.

  Readers return nothing where no value begins, and a diagnostic where one that began
  cannot be finished. They recurse on a bound that `depthBound` makes large enough for
  any text: each reader that opens another one has taken a character before.
-/
import Sketchwork.Decimal.Reading
import Sketchwork.Diagnostic
import Sketchwork.Outline.Item
import Sketchwork.Text.Alphanumeric
import Sketchwork.Text.Quoted

namespace Sketchwork.Flow

/-! ## Plain scalars -/

/-- Where a plain scalar stops. -/
inductive Context where
  /-- At the end of the line. -/
  | block
  /-- As an item of a collection. -/
  | item
  /-- As a key of a map. -/
  | key
  deriving DecidableEq, Repr

/-- Whether a quote opens after `previous`: an apostrophe inside a word does not. -/
def opensQuote (previous c : Char) : Bool :=
  (c == '"' || c == '\'') && !Text.isAlphanumeric previous

/-- The characters of an item or key, with the bracket depth, the open quote and the
    character before. -/
def takePlain (isKey : Bool) (depth : Nat) (quote : Option Char) (previous : Char) : List Char → List Char
  | [] => []
  | c :: cs =>
    match quote with
    | some q => c :: takePlain isKey depth (if c == q then none else some q) c cs
    | none =>
      if opensQuote previous c then c :: takePlain isKey depth (some c) c cs
      else if c == '(' || c == '[' || c == '{' then c :: takePlain isKey (depth + 1) none c cs
      else if (c == ')' || c == ']' || c == '}') && depth != 0 then c :: takePlain isKey (depth - 1) none c cs
      else if (c == ',' || c == ']' || c == '}') && depth == 0 then []
      else if c == ':' && depth == 0 && isKey then []
      else c :: takePlain isKey depth none c cs

/-- The bracket depth after a text that begins at depth `depth`. Brackets inside quotes do
    not count. -/
def depthAfter (depth : Nat) (quote : Option Char) (previous : Char) : List Char → Nat
  | [] => depth
  | c :: cs =>
    match quote with
    | some q => depthAfter depth (if c == q then none else some q) c cs
    | none =>
      if opensQuote previous c then depthAfter depth (some c) c cs
      else if c == '[' || c == '{' then depthAfter (depth + 1) none c cs
      else if c == ']' || c == '}' then depthAfter (depth - 1) none c cs
      else depthAfter depth none c cs

/-- Whether a character may not begin a plain scalar. -/
def isReserved (c : Char) : Bool :=
  "[]\x7b\x7d,\"':".contains c

/-- The plain scalar that begins at a place, without the blanks behind it. -/
def plain? (context : Context) (p : Place) : Option (List Char × Place) :=
  if (p.rest.head?.map isReserved).getD false then none
  else
    let whole := match context with
      | .block => p.rest
      | .item => takePlain false 0 none ' ' p.rest
      | .key => takePlain true 0 none ' ' p.rest
    let word := Text.trimEnd whole
    if word.isEmpty then none else some (word, ⟨p.pos + Text.width word, p.rest.drop word.length⟩)

/-- A decimal number; names such as `inf` are not numbers. -/
def number? (word : List Char) : Option Float :=
  let unsigned := (Decimal.spanSign word).2
  let numeric := match unsigned with
    | '.' :: c :: _ => c.isDigit
    | c :: _ => c.isDigit
    | [] => false
  if numeric then Decimal.read? word else none

/-- What a plain scalar stands for. -/
def resolve (word : List Char) (span : Span) : Item :=
  let s := String.ofList word
  if s == "~" || s == "null" || s == "Null" || s == "NULL" then .null span
  else if s == "true" || s == "True" || s == "TRUE" then .bool true span
  else if s == "false" || s == "False" || s == "FALSE" then .bool false span
  else match number? word with
    | some x => .number x span
    | none => .text s false span

/-! ## Quoted scalars -/

/-- The escapes of double quoted scalars. -/
def unescape? (c : Char) : Option Char :=
  if c = '/' then some '/' else Quoted.unescape? c

/-- The quoted scalar that begins at a place, if one does. -/
def quoted? (p : Place) : Except Diagnostic (Option (String × Place)) :=
  let finish (quote : Char) (scan : Quoted.Scan) : Except Diagnostic (Option (String × Place)) :=
    match scan with
    | .closed content after => .ok (some (String.ofList content, after))
    | .badEscape pos _ => .error ⟨.scalarEscape, .sized pos 1⟩
    | .unclosed stop => .error ⟨.openScalar quote, .between p.pos stop⟩
  match p.rest with
  | '"' :: cs => finish '"' (Quoted.escaped unescape? '"' (p.pos + 1) cs)
  | '\'' :: cs => finish '\'' (Quoted.doubled '\'' (p.pos + 1) cs)
  | _ => .ok none

/-! ## Collections -/

/-- The key of a map entry that begins at a place, if one does. -/
def key? (p : Place) : Except Diagnostic (Option (Spanned String × Place)) := do
  match ← quoted? p with
  | some (s, q) => return some (⟨s, .between p.pos q.pos⟩, q)
  | none => return (plain? .key p).map fun (word, q) => (⟨String.ofList word, .between p.pos q.pos⟩, q)

/-- A scalar that begins at a place, if one does. -/
def scalar? (context : Context) (p : Place) : Except Diagnostic (Option (Item × Place)) := do
  match ← quoted? p with
  | some (s, q) => return some (.text s true (.between p.pos q.pos), q)
  | none => return (plain? context p).map fun (word, q) => (resolve word (.between p.pos q.pos), q)

/-- The place after a comma and the spaces behind it. -/
def comma? (p : Place) : Option Place :=
  match p.rest with
  | ',' :: cs => some (Place.skipSpaces ⟨p.pos + 1, cs⟩)
  | _ => none

/-- The place after the bracket that closes the collection begun at `start`; a comma may
    stand before it. -/
def close (bracket : Char) (start : Nat) (p : Place) : Except Diagnostic Place :=
  let p := (comma? p).getD p
  match p.rest with
  | [] => .error ⟨.openCollection, .between start p.pos⟩
  | c :: cs => if c = bracket then .ok ⟨p.pos + 1, cs⟩ else .error ⟨.flowSeparator, .sized p.pos 1⟩

mutual

/-- The value that begins at a place, if one does. -/
def node? : Nat → Context → Place → Except Diagnostic (Option (Item × Place))
  | 0, _, _ => .ok none
  | n + 1, context, p =>
    match p.rest with
    | '[' :: cs => do
      let (items, q) ← items n (Place.skipSpaces ⟨p.pos + 1, cs⟩)
      let q ← close ']' p.pos q
      return some (.seq items (.between p.pos q.pos), q)
    | '{' :: cs => do
      let (entries, q) ← entries n (Place.skipSpaces ⟨p.pos + 1, cs⟩)
      let q ← close '}' p.pos q
      return some (.map entries (.between p.pos q.pos), q)
    | _ => scalar? context p

/-- Items separated by commas, none where none begins. -/
def items : Nat → Place → Except Diagnostic (List Item × Place)
  | 0, p => .ok ([], p)
  | n + 1, p => do
    match ← node? n .item p with
    | none => return ([], p)
    | some (item, q) =>
      let (more, q) ← moreItems n q.skipSpaces
      return (item :: more, q)

/-- The items after the first. A comma that no item follows is left. -/
def moreItems : Nat → Place → Except Diagnostic (List Item × Place)
  | 0, p => .ok ([], p)
  | n + 1, p =>
    match comma? p with
    | none => .ok ([], p)
    | some next => do
      match ← node? n .item next with
      | none => return ([], p)
      | some (item, q) =>
        let (more, q) ← moreItems n q.skipSpaces
        return (item :: more, q)

/-- The entry `key: value` that begins at a place, if one does. -/
def entry? : Nat → Place → Except Diagnostic (Option (Item.Entry × Place))
  | 0, _ => .ok none
  | n + 1, p => do
    match ← key? p with
    | none => return none
    | some (key, q) =>
      let q := q.skipSpaces
      match q.rest with
      | ':' :: cs =>
        let q := Place.skipSpaces ⟨q.pos + 1, cs⟩
        match ← node? n .item q with
        | none => return some ((key, .null (.point q.pos)), q.skipSpaces)
        | some (value, q) => return some ((key, value), q.skipSpaces)
      | _ => .error ⟨.flowColon, .sized q.pos 1⟩

def entries : Nat → Place → Except Diagnostic (List Item.Entry × Place)
  | 0, p => .ok ([], p)
  | n + 1, p => do
    match ← entry? n p with
    | none => return ([], p)
    | some (entry, q) =>
      let (more, q) ← moreEntries n q
      return (entry :: more, q)

def moreEntries : Nat → Place → Except Diagnostic (List Item.Entry × Place)
  | 0, p => .ok ([], p)
  | n + 1, p =>
    match comma? p with
    | none => .ok ([], p)
    | some next => do
      match ← entry? n next with
      | none => return ([], p)
      | some (entry, q) =>
        let (more, q) ← moreEntries n q
        return (entry :: more, q)

end

/-- A number of nested readers that no text exceeds. -/
def depthBound (cs : List Char) : Nat :=
  4 * (cs.length + 1)

/-- The value that a whole line is. -/
def line (p : Place) : Except Diagnostic Item := do
  match ← node? (depthBound p.rest) .block p with
  | none => .error ⟨.noValue, .sized p.pos 1⟩
  | some (item, q) =>
    let q := q.skipSpaces
    if q.rest.isEmpty then return item
    else .error ⟨.afterValue, .between q.pos q.stop⟩

/-! ## Repeated keys -/

/-- The diagnostic for a key that was used before. -/
def duplicate? (seen : List (Spanned String)) (key : Spanned String) : Option Diagnostic :=
  (seen.find? fun k => k.value == key.value).map fun first => ⟨.duplicateKey key.value first.span, key.span⟩

mutual

/-- The repeated keys of every map inside a value. -/
def repeatedKeys : Item → List Diagnostic
  | .seq items _ => repeatedInItems items
  | .map entries _ => repeatedInEntries [] entries
  | _ => []

def repeatedInItems : List Item → List Diagnostic
  | [] => []
  | item :: items => repeatedKeys item ++ repeatedInItems items

/-- The repeated keys from an entry on, after the keys `seen`. -/
def repeatedInEntries (seen : List (Spanned String)) : List Item.Entry → List Diagnostic
  | [] => []
  | (key, value) :: entries =>
    (duplicate? seen key).toList ++ repeatedKeys value ++ repeatedInEntries (seen ++ [key]) entries

end

end Sketchwork.Flow
