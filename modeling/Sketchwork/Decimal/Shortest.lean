/-
  Sketchwork.Decimal.Shortest — the fewest decimal digits that read back as a number.

  The reals that round to a binary number form an interval around it, its ends
  included when the mantissa is even. On the grid of decimals with 1, 2, 3 … digits
  only the two neighbours of the number can be nearest to it; the first grid that has
  one of them inside the interval gives the digits.
-/

import Sketchwork.Decimal.Exact

namespace Sketchwork.Decimal

/-- Which of two equally near decimals is taken. -/
inductive Tie where
  | toEven
  | up
  deriving DecidableEq, Repr

/-- `value * 10 ^ exponent`. -/
structure Digits where
  value : Nat
  exponent : Int
  deriving DecidableEq, Repr

/-- The position of the leading digit: `10 ^ (p - 1) ≤ num / den < 10 ^ p`. -/
def leading (num den : Nat) : Int :=
  if den ≤ num then (digits (num / den)).length
  else
    let j := (digits (den / num)).length
    if num * Nat.pow 10 (j - 1) = den then 2 - j else 1 - j

/-- The decimal of `n` digits nearest to a positive number among those that read back as
    it, if there is one. -/
def Dyadic.onGrid? (d : Dyadic) (tie : Tie) (n : Nat) : Option Digits :=
  let (num, den) := d.ratio
  let step := leading num den - n
  let (up, down) := power 10 step
  let scale := up * den
  -- In units of a quarter of the last binary place: the number, and how far its interval reaches.
  let unit := (power 2 d.exponent).1
  let here := 4 * num * down
  let below := (if d.narrow then 1 else 2) * unit * down
  let above := 2 * unit * down
  let inside (k : Nat) : Bool :=
    let at_ := 4 * k * scale
    if d.mantissa % 2 = 0 then here ≤ at_ + below && at_ ≤ here + above
    else here < at_ + below && at_ < here + above
  let k := num * down / scale
  let low := here - 4 * k * scale
  let high := 4 * (k + 1) * scale - here
  let pick (k : Nat) : Option Digits := some ⟨k, step⟩
  match inside k, inside (k + 1) with
  | true, false => pick k
  | false, true => pick (k + 1)
  | false, false => none
  | true, true =>
    if low < high then pick k
    else if high < low then pick (k + 1)
    else match tie with
      | .toEven => pick (if k % 2 = 0 then k else k + 1)
      | .up => pick (k + 1)

/-- Trailing zeros moved into the exponent. -/
def Digits.normalize (ds : Digits) : Digits :=
  go (digits ds.value).length ds
where
  go : Nat → Digits → Digits
    | 0, ds => ds
    | fuel + 1, ds =>
      if ds.value % 10 = 0 && ds.value != 0 then go fuel ⟨ds.value / 10, ds.exponent + 1⟩ else ds

/-- The fewest digits that read back; 17 always do. -/
def Dyadic.shortest (d : Dyadic) (tie : Tie) : Digits :=
  if d.mantissa = 0 then ⟨0, 0⟩
  else (((List.range 17).findSome? fun i => d.onGrid? tie (i + 1)).getD ⟨0, 0⟩).normalize

/-- Positional notation, never an exponent. -/
def Digits.positional (ds : Digits) : List Char :=
  if 0 ≤ ds.exponent then digits ds.value ++ List.replicate ds.exponent.toNat '0'
  else pointed (digits ds.value) (-ds.exponent).toNat

/-- Positional notation of the shortest digits. -/
def Number.plain : Number → List Char
  | .nan => ['N', 'a', 'N']
  | .infinite negative => signed negative ['i', 'n', 'f']
  | .finite negative d => signed negative ((d.shortest .up).positional)

/-- The text of a number in messages, labels and styles. -/
def plain (x : Float) : String :=
  String.ofList (Number.plain (.ofFloat x))

/-- The text of a single precision number. -/
def plain32 (x : Float32) : String :=
  String.ofList (Number.plain (.ofFloat32 x))

end Sketchwork.Decimal
