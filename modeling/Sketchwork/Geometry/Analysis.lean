/-
  Sketchwork.Geometry.Analysis — the real functions that geometry is done with.

  The formulas of this folder are written once, over any numbers that have the field
  operations and the functions of `Analysis`. They run on doubles; read over an exact
  field they are the mathematics that the doubles approximate.
-/

namespace Sketchwork

class Analysis (α : Type) where
  pi : α
  abs : α → α
  sqrt : α → α
  sin : α → α
  cos : α → α
  tan : α → α
  /-- The angle of the vector `(x, y)`, as `atan2 y x`. -/
  atan2 : α → α → α
  /-- The length of the vector `(x, y)`. -/
  hypot : α → α → α
  /-- What is left of the first number after taking the second away as often as it goes; it
      has the sign of the first. -/
  remainder : α → α → α
  /-- Neither infinite nor undefined. -/
  isFinite : α → Bool

namespace Real64

/-! ## Doubles -/

/-- `mantissa * 2 ^ exponent`, decoded from the bits of a positive finite double. -/
def decode (x : Float) : Nat × Int :=
  let bits := x.toBits.toNat
  let fraction := bits % Nat.pow 2 52
  let exponent : Nat := bits / Nat.pow 2 52 % Nat.pow 2 11
  if exponent = 0 then (fraction, -1074) else (Nat.pow 2 52 + fraction, (exponent : Int) - 1075)

/-- The double with a mantissa of at most 53 bits. -/
def encode (mantissa : Nat) (exponent : Int) : Float :=
  Float.scaleB (Float.ofNat mantissa) exponent

/-- The exact remainder of the quotient rounded toward zero, with the sign of `x`. -/
def remainder (x y : Float) : Float :=
  if x.isNaN || y.isNaN || x.isInf || y == 0 then 0.0 / 0.0
  else if y.isInf then x
  else
    let (m, e) := decode x.abs
    let (n, f) := decode y.abs
    let r :=
      if f ≤ e then encode (m * Nat.pow 2 (e - f).toNat % n) f
      else encode (m % (n * Nat.pow 2 (f - e).toNat)) e
    if x.toBits.toNat.testBit 63 then -r else r

/-- `2 ^ exponent`, for the exponents of normal doubles: from -1022 to 1023. -/
def power (exponent : Int) : Float :=
  Float.ofBits (UInt64.ofNat ((exponent + 1023).toNat * Nat.pow 2 52))

/-- The square root of the sum of the squares of `0 ≤ b ≤ a`, with one correction step. -/
def hypotKernel (a b : Float) : Float :=
  let h := (a * a + b * b).sqrt
  if h ≤ 2.0 * b then
    let d := h - b
    h - (a * (2.0 * d - a) + (d - 2.0 * (a - b)) * d) / (2.0 * h)
  else
    let d := h - a
    h - (2.0 * d * (a - 2.0 * b) + ((4.0 * d - b) * b + d * d)) / (2.0 * h)

/-- The length of a vector, scaled where the squares would leave the range of doubles. -/
def hypot (x y : Float) : Float :=
  if x.isInf || y.isInf then 1.0 / 0.0
  else if x.isNaN || y.isNaN then 0.0 / 0.0
  else
    let x := x.abs
    let y := y.abs
    let a := if x < y then y else x
    let b := if x < y then x else y
    let small := power (-54)
    if power 511 < a then
      if b ≤ a * small then a + b
      else hypotKernel (a * power (-600)) (b * power (-600)) * power 600
    else if b < power (-459) then
      if b / small ≤ a then a + b
      else hypotKernel (a * power 600) (b * power 600) * power (-600)
    else if b ≤ a * small then a + b
    else hypotKernel a b

/-- The smaller of two doubles, the second where they are equal (so of `0` and `-0`); one that
    is not a number is passed over. -/
def min (a b : Float) : Float :=
  if b.isNaN then a else if a < b then a else b

/-- The larger of two doubles, the second where they are equal; one that is not a number is
    passed over. -/
def max (a b : Float) : Float :=
  if b.isNaN then a else if b < a then a else b

def pi : Float := 3.141592653589793

/-- Degrees to radians. -/
def radians (degrees : Float) : Float :=
  degrees * (pi / 180.0)

/-- Radians to degrees. -/
def degrees (radians : Float) : Float :=
  radians * (180.0 / pi)

/-- The remainder in `[0, |y|)`. -/
def wrap (x y : Float) : Float :=
  let r := remainder x y
  if r < 0.0 then r + y.abs else r

/-- The order of doubles that tells `-0` from `0` and puts it first, with undefined values at
    the ends: by the bits, sign and magnitude. -/
def totalLe (a b : Float) : Bool :=
  key a ≤ key b
where
  key (x : Float) : Int :=
    let bits := x.toBits.toNat
    if bits.testBit 63 then -((bits % Nat.pow 2 63 : Nat) : Int) - 1 else bits

end Real64

instance : Analysis Float where
  pi := Real64.pi
  abs := Float.abs
  sqrt := Float.sqrt
  sin := Float.sin
  cos := Float.cos
  tan := Float.tan
  atan2 := Float.atan2
  hypot := Real64.hypot
  remainder := Real64.remainder
  isFinite := Float.isFinite

end Sketchwork
