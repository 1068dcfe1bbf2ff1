/-
  Sketchwork.Decimal.Exact — the exact value of a binary floating point number, and
  its rounding to a fixed number of decimal places.

  A finite number is `± mantissa * 2 ^ exponent`. Everything here is arithmetic on
  natural numbers: `roundDiv` is within half a unit of the quotient
  (`roundDiv_within_half`), a half goes to the even neighbour.
-/

namespace Sketchwork.Decimal

/-- `mantissa * 2 ^ exponent`. A number is `narrow` when the next smaller one is only
    half as far away as the next larger one. -/
structure Dyadic where
  mantissa : Nat
  exponent : Int
  narrow : Bool
  deriving DecidableEq, Repr

inductive Number where
  | nan
  | infinite (negative : Bool)
  | finite (negative : Bool) (value : Dyadic)
  deriving DecidableEq, Repr

/-- The number that a sign, a biased exponent field and a fraction field stand for, in a
    format with `fractionBits` and `exponentBits`. -/
def Number.ofFields (fractionBits exponentBits : Nat) (negative : Bool) (exponent fraction : Nat) : Number :=
  let least : Int := 2 - Nat.pow 2 (exponentBits - 1) - fractionBits
  if exponent + 1 = Nat.pow 2 exponentBits then
    if fraction = 0 then .infinite negative else .nan
  else if exponent = 0 then .finite negative ⟨fraction, least, false⟩
  else .finite negative ⟨Nat.pow 2 fractionBits + fraction, least + (exponent - 1), fraction = 0 && 1 < exponent⟩

def Number.ofFloat (x : Float) : Number :=
  let bits := x.toBits.toNat
  .ofFields 52 11 (bits.testBit 63) (bits / Nat.pow 2 52 % Nat.pow 2 11) (bits % Nat.pow 2 52)

def Number.ofFloat32 (x : Float32) : Number :=
  let bits := x.toBits.toNat
  .ofFields 23 8 (bits.testBit 31) (bits / Nat.pow 2 23 % Nat.pow 2 8) (bits % Nat.pow 2 23)

/-- `2 ^ e` or `10 ^ e` as a quotient of natural numbers. -/
def power (base : Nat) (e : Int) : Nat × Nat :=
  if 0 ≤ e then (Nat.pow base e.toNat, 1) else (1, Nat.pow base (-e).toNat)

/-- The value as a quotient of natural numbers. -/
def Dyadic.ratio (d : Dyadic) : Nat × Nat :=
  let (up, down) := power 2 d.exponent
  (d.mantissa * up, down)

/-- The quotient rounded to the nearest natural number, a half to the even one. -/
def roundDiv (num den : Nat) : Nat :=
  let q := num / den
  let r := num % den
  if 2 * r < den then q
  else if den < 2 * r then q + 1
  else if q % 2 = 0 then q else q + 1

theorem roundDiv_within_half {num den : Nat} (h : 0 < den) :
    2 * (roundDiv num den * den) ≤ 2 * num + den ∧ 2 * num ≤ 2 * (roundDiv num den * den) + den := by
  have hd := Nat.div_add_mod num den
  have hm := Nat.mod_lt num h
  have hq : num / den * den = den * (num / den) := Nat.mul_comm _ _
  have hs : (num / den + 1) * den = den * (num / den) + den := by rw [Nat.add_mul, Nat.one_mul, hq]
  unfold roundDiv
  dsimp only
  split
  · omega
  · split
    · omega
    · split <;> omega

/-- The decimal digits of a natural number, most significant first. -/
def digits (n : Nat) : List Char :=
  Nat.toDigits 10 n

/-- Digits with a point before the last `places` of them; at least one stands before it. -/
def pointed (ds : List Char) (places : Nat) : List Char :=
  let padded := List.replicate (places + 1 - ds.length) '0' ++ ds
  let whole := padded.take (padded.length - places)
  if places = 0 then whole else whole ++ '.' :: padded.drop (padded.length - places)

def signed (negative : Bool) (text : List Char) : List Char :=
  if negative then '-' :: text else text

/-- The number with exactly `places` decimal places. -/
def Number.fixed (places : Nat) : Number → List Char
  | .nan => ['N', 'a', 'N']
  | .infinite negative => signed negative ['i', 'n', 'f']
  | .finite negative d =>
    let (num, den) := d.ratio
    signed negative (pointed (digits (roundDiv (num * Nat.pow 10 places) den)) places)

/-- The number with exactly `places` decimal places. -/
def fixed (places : Nat) (x : Float) : String :=
  String.ofList (Number.fixed places (.ofFloat x))

end Sketchwork.Decimal
