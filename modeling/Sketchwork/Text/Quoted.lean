/-
  Sketchwork.Text.Quoted — texts between quotes.

  Two rules of quoting: with backslash escapes, where the table of escapes is a
  parameter, and with the quote itself written twice.
-/
import Sketchwork.Text.Place

namespace Sketchwork.Quoted

/-- The character that a backslash and `c` stand for. -/
def unescape? (c : Char) : Option Char :=
  if c = 'n' then some '\n'
  else if c = 'r' then some '\r'
  else if c = 't' then some '\t'
  else if c = '0' then some '\x00'
  else if c = '\\' || c = '"' || c = '\'' then some c
  else none

/-- How the characters after an opening quote go on. -/
inductive Scan where
  | closed (content : List Char) (after : Place)
  /-- A backslash at `pos` that begins no escape; `after` is behind the backslash. -/
  | badEscape (pos : Nat) (after : Place)
  | unclosed (stop : Nat)
  deriving Repr

def Scan.cons (c : Char) : Scan → Scan
  | closed content after => closed (c :: content) after
  | scan => scan

/-- Up to the next `quote` that no backslash escapes. -/
def escaped (table : Char → Option Char) (quote : Char) (pos : Nat) : List Char → Scan
  | [] => .unclosed pos
  | c :: cs =>
    if c = '\\' then
      match cs with
      | [] => .badEscape pos ⟨pos + 1, []⟩
      | e :: cs =>
        match table e with
        | some x => (escaped table quote (pos + 1 + e.utf8Size) cs).cons x
        | none => .badEscape pos ⟨pos + 1, e :: cs⟩
    else if c = quote then .closed [] ⟨pos + 1, cs⟩
    else (escaped table quote (pos + c.utf8Size) cs).cons c

/-- Up to the next `quote` that is not doubled. -/
def doubled (quote : Char) (pos : Nat) : List Char → Scan
  | [] => .unclosed pos
  | c :: cs =>
    if c = quote then
      match cs with
      | [] => .closed [] ⟨pos + 1, []⟩
      | d :: cs =>
        if d = quote then (doubled quote (pos + 2) cs).cons quote
        else .closed [] ⟨pos + 1, d :: cs⟩
    else (doubled quote (pos + c.utf8Size) cs).cons c

/-- What a scan leaves is no longer than what it read. -/
theorem escaped_length (table : Char → Option Char) (quote : Char) (pos : Nat) (cs : List Char) :
    match escaped table quote pos cs with
    | .closed _ after | .badEscape _ after => after.rest.length ≤ cs.length
    | .unclosed _ => True := by
  fun_induction escaped table quote pos cs with
  | case1 => trivial
  | case2 => simp
  | case3 pos e cs x hx ih =>
    cases h : escaped table quote (pos + 1 + e.utf8Size) cs <;> simp_all [Scan.cons] <;> omega
  | case4 => simp
  | case5 => simp
  | case6 pos c cs _ _ ih =>
    cases h : escaped table quote (pos + c.utf8Size) cs <;> simp_all [Scan.cons] <;> omega

end Sketchwork.Quoted
