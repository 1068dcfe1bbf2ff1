/-
  Sketchwork.Config.Numeral — numbers, as TOML writes them.

  (1) Forms. A number is whole (`-12`), whole in radix sixteen, eight or two and without a
  sign (`0xff`, `0o17`, `0b11`), a decimal one with a point, an exponent or both (`1.5e3`),
  or one of `inf` and `nan`. It begins with no zero but the only one, and single underscores
  may stand between its digits.

  (2) Values. A text has the form of a number well before it is worth one: `0x` has no
  digits, `1_0z` goes on behind its underscore with what is none, and `1e999` is larger than
  any double. Such a numeral is `worthless`, which is for the one who needs its value to
  refuse; where nobody looks at it, it may stand.
-/
import Sketchwork.Decimal.Reading
import Sketchwork.Text.Fields
import Sketchwork.Text.Hex

namespace Sketchwork

inductive Numeral where
  | integer (value : Int)
  | decimal (value : Float)
  /-- Has the form of a number, but no value. -/
  | worthless
  deriving Repr

namespace Numeral

/-! ## Underscores and zeros -/

/-- Whether a part behind an underscore may stand there. -/
def beginsWith (digit : Char → Bool) (part : List Char) : Bool :=
  part.head?.any digit

/-- Whether a part in front of an underscore may stand there, which a lone sign may as well
    as digits. -/
def endsWith (digit : Char → Bool) (part : List Char) : Bool :=
  part.length == 1 || part.getLast?.any digit

/-- Whether every underscore stands between digits. -/
def isGrouped (digit : Char → Bool) (cs : List Char) : Bool :=
  let parts := Text.splitWhere (· == '_') cs
  parts.tail.all (beginsWith digit) && parts.dropLast.all (endsWith digit)

def ungrouped (cs : List Char) : List Char :=
  cs.filter (· != '_')

/-- Whether a zero is followed by more of the same number. -/
def hasLeadingZero (cs : List Char) : Bool :=
  cs.head? == some '0' && 1 < cs.length

/-! ## Whole numbers -/

/-- The number that digits spell in a radix. -/
def ofRadix (radix : Nat) (ds : List Char) : Nat :=
  ds.foldl (fun n c => radix * n + (Text.hexValue? c).getD 0) 0

/-- A number in another radix than ten, without the letter that says which. -/
def inRadix? (radix : Nat) (cs : List Char) : Option Numeral :=
  let isDigit (c : Char) := (Text.hexValue? c).any (· < radix)
  if (ungrouped cs).all isDigit && isGrouped isDigit cs then
    some (if cs.isEmpty then .worthless else .integer (ofRadix radix (ungrouped cs)))
  else none

/-- A whole number; `body` is what follows its sign. Letters of hexadecimal digits may stand
    next to its underscores, although they are worth nothing here. -/
def whole? (cs body : List Char) : Option Numeral :=
  if hasLeadingZero body || !isGrouped Text.isHexDigit cs then none
  else
    let (negative, ds) := Decimal.spanSign (ungrouped cs)
    if ds.isEmpty || !ds.all Char.isDigit then some .worthless
    else
      let n : Int := Decimal.ofDigits ds
      some (.integer (if negative then -n else n))

/-! ## Decimal numbers -/

def isDigitOrMark (c : Char) : Bool :=
  c.isDigit || c == '_'

/-- What follows digits and underscores, of which there is a digit at least. -/
def afterDigits? (cs : List Char) : Option (List Char) :=
  if (cs.takeWhile isDigitOrMark).any Char.isDigit then some (cs.dropWhile isDigitOrMark) else none

/-- What follows a point and its places, where there are any. -/
def afterPlaces? : List Char → Option (List Char)
  | '.' :: cs => afterDigits? cs
  | cs => some cs

/-- What follows an exponent, where there is one. -/
def afterExponent? : List Char → Option (List Char)
  | 'e' :: cs | 'E' :: cs => afterDigits? (Decimal.spanSign cs).2
  | cs => some cs

def isDecimal (body : List Char) : Bool :=
  !hasLeadingZero (body.takeWhile isDigitOrMark)
    && ((afterDigits? body).bind afterPlaces?).bind afterExponent? == some []

/-- A number with a point or an exponent; `body` is what follows its sign. -/
def decimal? (cs body : List Char) : Option Numeral :=
  if isDecimal body && isGrouped Char.isDigit cs then
    (Decimal.read? (ungrouped cs)).map fun x => if x.isFinite then .decimal x else .worthless
  else none

/-! ## All numbers -/

/-- The numeral that a text is; none where it has the form of no number. -/
def read? (cs : List Char) : Option Numeral :=
  let (negative, body) := Decimal.spanSign cs
  match cs, body with
  | '0' :: 'x' :: ds, _ => inRadix? 16 ds
  | '0' :: 'o' :: ds, _ => inRadix? 8 ds
  | '0' :: 'b' :: ds, _ => inRadix? 2 ds
  | _, ['i', 'n', 'f'] => some (.decimal (if negative then -1.0 / 0.0 else 1.0 / 0.0))
  | _, ['n', 'a', 'n'] => some (.decimal (0.0 / 0.0))
  | _, [] => none
  | _, body =>
    let rest := body.dropWhile Char.isDigit
    if rest.any fun c => c == '.' || c == 'e' || c == 'E' then decimal? cs body
    else if rest.isEmpty || rest.head? == some '_' then whole? cs body
    else none

end Numeral
end Sketchwork
