/-
  Sketchwork.Json.Writer — the text of JSON values.

  Numbers take the fewest digits that read back. They are written positionally, with at
  least one decimal place, when the exponent of their first digit is from -5 to 15, else
  with a signed exponent. In strings only quotes, backslashes and control characters are
  escaped.
-/
import Sketchwork.Json.Basic
import Sketchwork.Decimal.Shortest

namespace Sketchwork.Json

/-! ## Numbers -/

/-- `d.ddde±x`. -/
def scientific (ds : List Char) (exponent : Int) : List Char :=
  let mantissa := match ds with
    | first :: second :: rest => first :: '.' :: second :: rest
    | ds => ds
  mantissa ++ 'e' :: (if exponent < 0 then '-' else '+') :: Decimal.digits exponent.natAbs

def digitsText (ds : Decimal.Digits) : List Char :=
  let text := Decimal.digits ds.value
  let exponent := ds.exponent + text.length - 1
  if -5 ≤ exponent && exponent ≤ 15 then
    if 0 ≤ ds.exponent then ds.positional ++ ['.', '0'] else ds.positional
  else scientific text exponent

def numberText (x : Float) : String :=
  match Decimal.Number.ofFloat x with
  | .finite negative d => String.ofList (Decimal.signed negative (digitsText (d.shortest .toEven)))
  | .nan | .infinite _ => "null"

/-! ## Strings -/

def hexDigit (n : Nat) : Char :=
  if n < 10 then Char.ofNat (n + '0'.toNat) else Char.ofNat (n - 10 + 'a'.toNat)

def escape (c : Char) : List Char :=
  let n := c.toNat
  if c == '"' then ['\\', '"']
  else if c == '\\' then ['\\', '\\']
  else if n == 8 then ['\\', 'b']
  else if n == 9 then ['\\', 't']
  else if n == 10 then ['\\', 'n']
  else if n == 12 then ['\\', 'f']
  else if n == 13 then ['\\', 'r']
  else if n < 32 then ['\\', 'u', '0', '0', hexDigit (n / 16), hexDigit (n % 16)]
  else [c]

def quoted (s : String) : String :=
  String.ofList ('"' :: s.toList.flatMap escape ++ ['"'])

/-! ## Values -/

mutual

/-- On one line, without spaces. -/
def compact : Json → String
  | .null => "null"
  | .bool b => if b then "true" else "false"
  | .int n => toString n
  | .number x => numberText x
  | .text s => quoted s
  | .array items => "[" ++ ",".intercalate (compactItems items) ++ "]"
  | .object entries => "\x7b" ++ ",".intercalate (compactEntries entries) ++ "\x7d"

def compactItems : List Json → List String
  | [] => []
  | item :: items => compact item :: compactItems items

def compactEntries : List (String × Json) → List String
  | [] => []
  | (key, value) :: entries => (quoted key ++ ":" ++ compact value) :: compactEntries entries

end

/-- The start of a line at a depth of nesting. -/
def newline (depth : Nat) : String :=
  String.ofList ('\n' :: List.replicate (2 * depth) ' ')

/-- Parts on lines of their own between brackets; brackets alone around no parts. -/
def block (depth : Nat) (opening closing : String) (parts : List String) : String :=
  if parts.isEmpty then opening ++ closing
  else opening ++ newline (depth + 1) ++ ("," ++ newline (depth + 1)).intercalate parts
    ++ newline depth ++ closing

mutual

def prettyAt : Json → Nat → String
  | .array items, depth => block depth "[" "]" (prettyItems items (depth + 1))
  | .object entries, depth => block depth "\x7b" "\x7d" (prettyEntries entries (depth + 1))
  | .null, _ => "null"
  | .bool b, _ => if b then "true" else "false"
  | .int n, _ => toString n
  | .number x, _ => numberText x
  | .text s, _ => quoted s

def prettyItems : List Json → Nat → List String
  | [], _ => []
  | item :: items, depth => prettyAt item depth :: prettyItems items depth

def prettyEntries : List (String × Json) → Nat → List String
  | [], _ => []
  | (key, value) :: entries, depth =>
    (quoted key ++ ": " ++ prettyAt value depth) :: prettyEntries entries depth

end

/-- Items and entries on lines of their own, indented by two spaces for each level. -/
def pretty (value : Json) : String :=
  prettyAt value 0

end Sketchwork.Json
