/-
  Sketchwork.Expr.Lexer — splitting an expression into tokens.

  Spaces, tabs and line breaks separate tokens and mean nothing else. A scan either
  yields a token or a fault together with the place where it stopped; after a fault the
  next character is skipped and scanning goes on, so one pass reports every fault.
  Every scan moves forward (`scan_forward`), which is why `run` ends.
-/
import Sketchwork.Decimal.Reading
import Sketchwork.Diagnostic
import Sketchwork.Text.Alphanumeric
import Sketchwork.Text.Quoted

namespace Sketchwork.Lexer

open Sketchwork.Text (width)

def isSpace (c : Char) : Bool :=
  c == ' ' || c == '\t' || c == '\r' || c == '\n'

/-! ## Numbers -/

/-- An exponent mark, an optional sign and digits, and what follows; nothing where the
    text begins with none. -/
def spanExponent (cs : List Char) : List Char × List Char :=
  match cs with
  | [] => ([], [])
  | mark :: tail =>
    if mark = 'e' || mark = 'E' then
      let sign := (tail.take 1).filter fun c => c = '+' || c = '-'
      let (ds, rest) := Decimal.spanDigits (tail.drop sign.length)
      if ds.isEmpty then ([], cs) else (mark :: sign ++ ds, rest)
    else ([], cs)

/-- The digits and the point that begin a text, with at least one digit. -/
def spanMantissa (cs : List Char) : List Char × List Char :=
  let (whole, rest) := Decimal.spanDigits cs
  match rest with
  | '.' :: tail =>
    let (places, rest) := Decimal.spanDigits tail
    if whole.isEmpty && places.isEmpty then ([], cs) else (whole ++ '.' :: places, rest)
  | _ => (whole, rest)

/-- The longest number that begins a text, and what follows. -/
def spanNumber (cs : List Char) : List Char × List Char :=
  let (mantissa, rest) := spanMantissa cs
  if mantissa.isEmpty then ([], cs)
  else
    let (exponent, rest) := spanExponent rest
    (mantissa ++ exponent, rest)

/-- Whether a character may not follow a number directly. -/
def gluesToNumber (c : Char) : Bool :=
  Text.isAlphanumeric c || c == '_' || c == '$'

/-! ## Names -/

def isNameStart (c : Char) : Bool :=
  c.isAlpha || c == '_'

def isNamePart (c : Char) : Bool :=
  c.isAlphanum || c == '_'

/-- The keyword or name that a word is. -/
def ofWord (word : List Char) : Token :=
  match String.ofList word with
  | "true" => .true
  | "false" => .false
  | "null" => .null
  | "and" => .and
  | "or" => .or
  | "not" => .not
  | w => .name false w

/-- The name or keyword that begins a text, its length in characters. -/
def name? : List Char → Option (Token × Nat)
  | '$' :: c :: cs =>
    if isNameStart c then
      let word := c :: cs.takeWhile isNamePart
      some (.name true (String.ofList word), word.length + 1)
    else none
  | c :: cs =>
    if isNameStart c then
      let word := c :: cs.takeWhile isNamePart
      some (ofWord word, word.length)
    else none
  | [] => none

/-! ## Operators -/

/-- The operator or bracket that begins a text, its length in characters. Two-character
    operators come before their first characters. -/
def operator? : List Char → Option (Token × Nat)
  | '=' :: '=' :: _ => some (.equalEqual, 2)
  | '!' :: '=' :: _ => some (.bangEqual, 2)
  | '<' :: '=' :: _ => some (.lessEqual, 2)
  | '>' :: '=' :: _ => some (.greaterEqual, 2)
  | '&' :: '&' :: _ => some (.ampAmp, 2)
  | '|' :: '|' :: _ => some (.pipePipe, 2)
  | '+' :: _ => some (.plus, 1)
  | '-' :: _ => some (.minus, 1)
  | '*' :: _ => some (.star, 1)
  | '/' :: _ => some (.slash, 1)
  | '%' :: _ => some (.percent, 1)
  | '^' :: _ => some (.caret, 1)
  | '<' :: _ => some (.less, 1)
  | '>' :: _ => some (.greater, 1)
  | '!' :: _ => some (.bang, 1)
  | '?' :: _ => some (.question, 1)
  | ':' :: _ => some (.colon, 1)
  | ',' :: _ => some (.comma, 1)
  | '.' :: _ => some (.dot, 1)
  | '(' :: _ => some (.leftParen, 1)
  | ')' :: _ => some (.rightParen, 1)
  | '[' :: _ => some (.leftBracket, 1)
  | ']' :: _ => some (.rightBracket, 1)
  | _ => none

/-! ## Scanning -/

inductive Scan where
  | token (t : Token) (after : Place)
  | fault (d : Diagnostic) (after : Place)
  deriving Repr

/-- Reads a text from its opening quote. -/
def readText (quote : Char) (p : Place) (body : List Char) : Scan :=
  match Quoted.escaped Quoted.unescape? quote (p.pos + 1) body with
  | .closed content after => .token (.text (String.ofList content)) after
  | .badEscape pos after => .fault ⟨.textEscape, .sized pos 1⟩ after
  | .unclosed stop => .fault ⟨.openText, .between p.pos stop⟩ ⟨stop, []⟩

/-- Reads a number whose characters are known. -/
def readNumber (p : Place) (lexeme rest : List Char) : Scan :=
  let after : Place := ⟨p.pos + width lexeme, rest⟩
  match rest.head?.map gluesToNumber with
  | some true => .fault ⟨.gluedNumber, .sized p.pos (width lexeme)⟩ after
  | _ => .token (.number ((Decimal.read? lexeme).getD 0)) after

/-- Reads the token that begins at a place which is not a space. -/
def scan (p : Place) : Scan :=
  match p.rest with
  | '"' :: body => readText '"' p body
  | '\'' :: body => readText '\'' p body
  | cs =>
    let (lexeme, rest) := spanNumber cs
    if lexeme.isEmpty then
      match (name? cs).or (operator? cs) with
      | some (t, n) => .token t ⟨p.pos + width (cs.take n), cs.drop n⟩
      | none => .fault ⟨.strayCharacter, .sized p.pos 1⟩ p
    else readNumber p lexeme rest

/-! ## Every scan moves forward -/

/-- The characters that a scan leaves. -/
def Scan.rest : Scan → List Char
  | token _ after | fault _ after => after.rest

theorem readText_shorter (quote q : Char) (p : Place) (body : List Char) :
    (readText quote p body).rest.length < (q :: body).length := by
  have h := Quoted.escaped_length Quoted.unescape? quote (p.pos + 1) body
  unfold readText
  cases hs : Quoted.escaped Quoted.unescape? quote (p.pos + 1) body with
  | closed _ after =>
    rw [hs] at h
    exact Nat.lt_succ_of_le h
  | badEscape _ after =>
    rw [hs] at h
    exact Nat.lt_succ_of_le h
  | unclosed _ => exact Nat.zero_lt_succ _

theorem spanDigits_append (cs : List Char) : (Decimal.spanDigits cs).1 ++ (Decimal.spanDigits cs).2 = cs := by
  simp [Decimal.spanDigits]

theorem spanExponent_append (cs : List Char) : (spanExponent cs).1 ++ (spanExponent cs).2 = cs := by
  unfold spanExponent
  split
  · rfl
  · rename_i mark tail
    dsimp only
    split
    · split
      · rfl
      · have h := spanDigits_append (tail.drop ((tail.take 1).filter fun c => c = '+' || c = '-').length)
        simp only [List.cons_append, List.append_assoc, h, List.cons.injEq, true_and]
        cases tail with
        | nil => rfl
        | cons c cs => by_cases hc : (c = '+' || c = '-') = true <;> simp_all
    · rfl

theorem spanMantissa_append (cs : List Char) : (spanMantissa cs).1 ++ (spanMantissa cs).2 = cs := by
  have h := spanDigits_append cs
  unfold spanMantissa
  dsimp only
  split
  · rename_i tail ht
    split
    · rfl
    · rw [List.append_assoc, List.cons_append, spanDigits_append tail, ← ht, h]
  · exact h

theorem spanNumber_append (cs : List Char) : (spanNumber cs).1 ++ (spanNumber cs).2 = cs := by
  unfold spanNumber
  dsimp only
  split
  · rfl
  · rw [List.append_assoc, spanExponent_append, spanMantissa_append]

/-- A name takes at least one character. -/
theorem name?_pos {cs : List Char} {t : Token} {n : Nat} (h : name? cs = some (t, n)) : 0 < n := by
  unfold name? at h
  split at h
  · split at h <;> simp at h; omega
  · split at h <;> simp at h; omega
  · simp at h

theorem operator?_pos {cs : List Char} {t : Token} {n : Nat} (h : operator? cs = some (t, n)) : 0 < n := by
  unfold operator? at h
  split at h <;> simp at h <;> omega

/-- A token takes characters away; a fault adds none. -/
def Scan.Forward (cs : List Char) : Scan → Prop
  | token _ after => after.rest.length < cs.length
  | fault _ after => after.rest.length ≤ cs.length

theorem scan_forward {p : Place} (hne : p.rest ≠ []) : (scan p).Forward p.rest := by
  have of_readText (quote q : Char) (body : List Char) : (readText quote p body).Forward (q :: body) := by
    have h := readText_shorter quote q p body
    cases hr : readText quote p body <;> simp_all [Scan.rest, Scan.Forward]
    omega
  unfold scan
  split
  · rename_i h; rw [h]; exact of_readText _ _ _
  · rename_i h; rw [h]; exact of_readText _ _ _
  · dsimp only
    have h := spanNumber_append p.rest
    split
    · cases hn : (name? p.rest).or (operator? p.rest) with
      | none => exact Nat.le_refl _
      | some tn =>
        obtain ⟨t, n⟩ := tn
        have hpos : 0 < n := by
          cases ha : name? p.rest with
          | none => rw [ha] at hn; exact operator?_pos hn
          | some x => rw [ha] at hn; simp at hn; subst hn; exact name?_pos ha
        have : 0 < p.rest.length := List.length_pos_iff.mpr hne
        simp only [Scan.Forward, List.length_drop]
        omega
    · rename_i hl
      have hlen := congrArg List.length h
      have : 0 < (spanNumber p.rest).1.length := by
        cases hs : (spanNumber p.rest).1 with
        | nil => simp [hs] at hl
        | cons _ _ => simp
      rw [List.length_append] at hlen
      unfold readNumber
      dsimp only
      split <;> simp only [Scan.Forward] <;> omega

/-! ## The whole text -/

/-- Tokens and faults from a place on. -/
def run (p : Place) : List (Spanned Token) × List Diagnostic :=
  match _hq : p.skipWhile isSpace with
  | ⟨_, []⟩ => ([], [])
  | ⟨pos, c :: cs⟩ =>
    match _hs : scan ⟨pos, c :: cs⟩ with
    | .token t after =>
      let (ts, ds) := run after
      (⟨t, .between pos after.pos⟩ :: ts, ds)
    | .fault d after =>
      let (ts, ds) := run after.skip
      (ts, d :: ds)
termination_by p.rest.length
decreasing_by
  all_goals
    have hle : (c :: cs).length ≤ p.rest.length := by
      have h := congrArg Place.rest _hq
      rw [← show (p.skipWhile isSpace).rest = c :: cs from h]
      exact p.skipWhile_length_le isSpace
    have h : (scan ⟨pos, c :: cs⟩).Forward (c :: cs) := scan_forward (List.cons_ne_nil c cs)
    rw [_hs] at h
  · exact Nat.lt_of_lt_of_le h hle
  · exact Nat.lt_of_lt_of_le (Place.skip_length_lt (Nat.zero_lt_succ _) h) hle

/-- The tokens of an expression whose first byte is at `offset`, or its faults. -/
def tokenize (offset : Nat) (text : List Char) : Except (List Diagnostic) (List (Spanned Token)) :=
  match run ⟨offset, text⟩ with
  | (ts, []) => .ok ts
  | (_, ds) => .error ds

end Sketchwork.Lexer
