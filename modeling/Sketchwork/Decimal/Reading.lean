/-
  Sketchwork.Decimal.Reading — decimal literals.

  A literal is an optional sign, digits with at most one point (at least one digit on
  either side of it) and an optional exponent; or, in any case, `inf`, `infinity` or
  `nan`. The value is the binary number nearest to it.
-/

import Sketchwork.Decimal.Exact
import Sketchwork.Text.Blank

namespace Sketchwork.Decimal

/-- What a literal says, exactly: `± mantissa * 10 ^ exponent`. -/
inductive Literal where
  | nan
  | infinite (negative : Bool)
  | finite (negative : Bool) (mantissa : Nat) (exponent : Int)
  deriving DecidableEq, Repr

/-- The number that digits spell. -/
def ofDigits (ds : List Char) : Nat :=
  ds.foldl (fun n c => 10 * n + (c.toNat - '0'.toNat)) 0

/-- The leading digits, and what follows them. -/
def spanDigits (cs : List Char) : List Char × List Char :=
  (cs.takeWhile Char.isDigit, cs.dropWhile Char.isDigit)

/-- What may follow digits: the end, or a character that is no digit. -/
theorem spanDigits_exact {a b : List Char} (ha : ∀ c ∈ a, c.isDigit = true) (hb : ∀ c ∈ b.head?, c.isDigit = false) :
    spanDigits (a ++ b) = (a, b) := by
  obtain ⟨htake, hdrop⟩ := Text.takeWhile_dropWhile_append ha hb
  exact Prod.ext htake hdrop

/-- The sign, and what follows it. -/
def spanSign : List Char → Bool × List Char
  | '-' :: cs => (true, cs)
  | '+' :: cs => (false, cs)
  | cs => (false, cs)

/-- The exponent that ends a literal, 0 when there is none. -/
def exponent? : List Char → Option Int
  | [] => some 0
  | c :: cs =>
    if c = 'e' || c = 'E' then
      let (negative, cs) := spanSign cs
      let (ds, rest) := spanDigits cs
      if ds.isEmpty || !rest.isEmpty then none
      else some (if negative then -(ofDigits ds : Int) else ofDigits ds)
    else none

def Literal.read? (cs : List Char) : Option Literal :=
  let (negative, cs) := spanSign cs
  let word := cs.map Char.toLower
  if word = ['n', 'a', 'n'] then some .nan
  else if word = ['i', 'n', 'f'] || word = ['i', 'n', 'f', 'i', 'n', 'i', 't', 'y'] then some (.infinite negative)
  else
    let (whole, rest) := spanDigits cs
    let (places, rest) := match rest with
      | '.' :: rest => spanDigits rest
      | _ => ([], rest)
    if whole.isEmpty && places.isEmpty then none
    else (exponent? rest).map fun e => .finite negative (ofDigits (whole ++ places)) (e - places.length)

/-- The nearest double; beyond 310 digits before the point there is only infinity, and
    beyond 330 zeros behind it only zero. -/
def Literal.toFloat : Literal → Float
  | .nan => 0.0 / 0.0
  | .infinite negative => if negative then -1.0 / 0.0 else 1.0 / 0.0
  | .finite negative m e =>
    let size : Int := (digits m).length + e
    let x : Float :=
      if m = 0 || size < -330 then 0.0
      else if 310 < size then 1.0 / 0.0
      else Float.ofScientific m (e < 0) e.natAbs
    if negative then -x else x

/-- The double that a literal stands for. -/
def read? (cs : List Char) : Option Float :=
  (Literal.read? cs).map Literal.toFloat

end Sketchwork.Decimal
