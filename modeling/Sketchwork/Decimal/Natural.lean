/-
  Sketchwork.Decimal.Natural — natural numbers of 64 bits in decimal digits.
-/

namespace Sketchwork.Decimal

/-- Why a text is no natural number. -/
inductive NaturalFault where
  | empty
  | digit
  | tooLarge
  deriving DecidableEq, Repr

def NaturalFault.message : NaturalFault → String
  | empty => "cannot parse integer from empty string"
  | digit => "invalid digit found in string"
  | tooLarge => "number too large to fit in target type"

/-- Takes digits behind `n`; the first one that is no digit or leads too far is the fault. -/
def continueNatural (n : Nat) : List Char → Except NaturalFault Nat
  | [] => .ok n
  | c :: cs =>
    if !c.isDigit then .error .digit
    else
      let next := 10 * n + (c.toNat - '0'.toNat)
      if Nat.pow 2 64 ≤ next then .error .tooLarge else continueNatural next cs

/-- Digits, a plus sign before them or not. -/
def readNatural : List Char → Except NaturalFault Nat
  | [] => .error .empty
  | ['+'] => .error .digit
  | '+' :: cs => continueNatural 0 cs
  | cs => continueNatural 0 cs

end Sketchwork.Decimal
