/-
  Sketchwork.Config.Moment — dates and times of day, as TOML writes them.

  A moment is a date (`1979-05-27`), a time of day (`07:32`, with seconds and parts of a
  second where they are wanted), or both with a `T` or a blank between them; only the last
  may end with its distance from universal time, `Z` or `+01:00`. No configuration holds one,
  so a moment is told from what is none and not kept.
-/
import Sketchwork.Decimal.Reading

namespace Sketchwork.Moment

/-- The number that a text begins with in exactly two digits, and what follows. -/
def pair? : List Char → Option (Nat × List Char)
  | a :: b :: rest => if a.isDigit && b.isDigit then some (Decimal.ofDigits [a, b], rest) else none
  | _ => none

def take? (c : Char) : List Char → Option (List Char)
  | d :: rest => if d = c then some rest else none
  | [] => none

/-- The number in two digits, where it is at most `most`. -/
def upTo? (most : Nat) (cs : List Char) : Option (List Char) := do
  let (n, rest) ← pair? cs
  if n ≤ most then some rest else none

def isLeapYear (year : Nat) : Bool :=
  year % 4 == 0 && (year % 100 != 0 || year % 400 == 0)

/-- The days of a month; none where there is no such month. -/
def daysIn (year : Nat) : Nat → Nat
  | 2 => if isLeapYear year then 29 else 28
  | 4 | 6 | 9 | 11 => 30
  | 1 | 3 | 5 | 7 | 8 | 10 | 12 => 31
  | _ => 0

/-- What follows a date. -/
def afterDate? (cs : List Char) : Option (List Char) := do
  let (century, rest) ← pair? cs
  let (year, rest) ← pair? rest
  let (month, rest) ← pair? (← take? '-' rest)
  let (day, rest) ← pair? (← take? '-' rest)
  if 1 ≤ day && day ≤ daysIn (100 * century + year) month then some rest else none

/-- What follows the seconds of a time and the parts of them; a leap second is one. -/
def afterSeconds? (cs : List Char) : Option (List Char) := do
  match ← upTo? 60 cs with
  | '.' :: rest =>
    let (parts, rest) := Decimal.spanDigits rest
    if parts.isEmpty then none else some rest
  | rest => some rest

/-- What follows a time of day. -/
def afterTime? (cs : List Char) : Option (List Char) := do
  let rest ← upTo? 23 cs
  match ← upTo? 59 (← take? ':' rest) with
  | ':' :: rest => afterSeconds? rest
  | rest => some rest

/-- What follows a distance from universal time. -/
def afterOffset? : List Char → Option (List Char)
  | c :: rest =>
    if c = 'Z' || c = 'z' then some rest
    else if c = '+' || c = '-' then do upTo? 59 (← take? ':' (← upTo? 23 rest))
    else none
  | [] => none

def isDate (cs : List Char) : Bool :=
  afterDate? cs == some []

/-- Whether a time of day stands here, with its distance from universal time or without. -/
def isTimeOfDate (cs : List Char) : Bool :=
  match afterTime? cs with
  | some [] => true
  | some rest => afterOffset? rest == some []
  | none => false

def isMoment (cs : List Char) : Bool :=
  match afterDate? cs with
  | some [] => true
  | some (mark :: rest) => (mark = 'T' || mark = 't' || mark = ' ') && isTimeOfDate rest
  | none => afterTime? cs == some []

end Sketchwork.Moment
