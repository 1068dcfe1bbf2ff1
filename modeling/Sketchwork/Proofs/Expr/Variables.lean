/-
  Sketchwork.Proofs.Expr.Variables — which words are read as variables.

  Two readers have to agree on names: documents decide what can be declared, and the lexer
  decides what an expression can refer to. A declared name that the lexer read otherwise could
  never be used.

  Proved: an identifier behind a sigil is a variable of this name (`Expr.read_sigil`), and so is
  the bare identifier unless it is a word of the language (`Expr.read_bare_iff`).
-/
import Mathlib.Data.List.TakeWhile
import Sketchwork.Document.Reader
import Sketchwork.Proofs.Expr.Numerals

namespace Sketchwork

open Text (width)

/-! ## Tokens -/

namespace Lexer

theorem isDigit_of_isNameStart {c : Char} (h : isNameStart c = true) : c.isDigit = false := by
  rw [← Bool.not_eq_true]
  intro hdigit
  have hbelow : c.val ≤ 57 := of_decide_eq_true (Bool.and_eq_true_iff.mp hdigit).2
  have habove : 65 ≤ c.val := by
    rcases Bool.or_eq_true_iff.mp h with halpha | hunderscore
    · rcases Bool.or_eq_true_iff.mp halpha with hupper | hlower
      · exact (of_decide_eq_true hupper).1
      · exact UInt32.le_trans (by decide) (of_decide_eq_true (Bool.and_eq_true_iff.mp hlower).1)
    · rw [beq_iff_eq.mp hunderscore]
      decide
  exact absurd (UInt32.le_trans habove hbelow) (by decide)

theorem run_nil (pos : Nat) : run ⟨pos, []⟩ = ([], []) := by
  rw [run.eq_def]
  rfl

/-- A text that begins with a token, behind spaces or not. -/
theorem run_of_token {p after : Place} {pos : Nat} {cs : List Char} {t : Token}
    (hskip : p.skipWhile isSpace = ⟨pos, cs⟩) (hne : cs ≠ []) (hs : scan ⟨pos, cs⟩ = .token t after) :
    run p = (⟨t, .between pos after.pos⟩ :: (run after).1, (run after).2) := by
  rw [run.eq_def]
  split
  · rename_i hnil
    rw [hskip] at hnil
    cases hnil
    exact absurd rfl hne
  · rename_i hcons
    rw [hskip] at hcons
    cases hcons
    split
    · rename_i hs'
      rw [hs] at hs'
      cases hs'
      rfl
    · rename_i hs'
      rw [hs] at hs'
      cases hs'

/-- A text whose first scan takes all of it is one token. -/
theorem tokenize_of_scan {offset : Nat} {t : Token} {c : Char} {cs : List Char} (hc : isSpace c = false)
    (h : scan ⟨offset, c :: cs⟩ = .token t ⟨offset + width (c :: cs), []⟩) :
    tokenize offset (c :: cs) = .ok [⟨t, .sized offset (width (c :: cs))⟩] := by
  have hskip : (⟨offset, c :: cs⟩ : Place).skipWhile isSpace = ⟨offset, c :: cs⟩ := by
    simp [Place.skipWhile, hc]
  have hspan : Span.between offset (offset + width (c :: cs)) = .sized offset (width (c :: cs)) := by
    simp only [Span.between, Span.sized, Span.mk.injEq]
    omega
  rw [tokenize, run_of_token hskip (List.cons_ne_nil c cs) h, run_nil, hspan]

/-- A name that is a whole text is its only token. -/
theorem tokenize_of_name? {c : Char} {cs : List Char} {t : Token} (hc : c = '$' ∨ isNameStart c = true)
    (h : name? (c :: cs) = some (t, (c :: cs).length)) (offset : Nat) :
    tokenize offset (c :: cs) = .ok [⟨t, .sized offset (width (c :: cs))⟩] := by
  have hne {d : Char} (hstart : isNameStart d = false) (hd : '$' ≠ d) : c ≠ d := by
    rintro rfl
    rcases hc with rfl | hc
    · exact hd rfl
    · rw [hstart] at hc
      cases hc
  have hdigit : c.isDigit = false := by
    rcases hc with rfl | hc
    · rfl
    · exact isDigit_of_isNameStart hc
  have hspace : isSpace c = false := by
    simp [isSpace, hne (d := ' ') (by decide) (by decide), hne (d := '\t') (by decide) (by decide),
      hne (d := '\r') (by decide) (by decide), hne (d := '\n') (by decide) (by decide)]
  refine tokenize_of_scan hspace ?_
  rw [scan]
  split
  · rename_i heq
    exact absurd (List.cons.inj heq).1 (hne (by decide) (by decide))
  · rename_i heq
    exact absurd (List.cons.inj heq).1 (hne (by decide) (by decide))
  · rw [spanNumber_of_not hdigit (hne (by decide) (by decide))]
    simp [h]

section

variable {word : List Char} (h : Document.isIdentifier word = true)

include h

theorem exists_of_isIdentifier : ∃ c cs, word = c :: cs ∧ isNameStart c = true ∧ cs.takeWhile isNamePart = cs := by
  cases word with
  | nil => cases h
  | cons c cs =>
    obtain ⟨hstart, hparts⟩ := Bool.and_eq_true_iff.mp h
    exact ⟨c, cs, rfl, hstart, List.takeWhile_eq_self_iff.mpr (List.all_eq_true.mp hparts)⟩

theorem tokenize_sigil (offset : Nat) : tokenize offset ('$' :: word) =
    .ok [⟨.name true (String.ofList word), .sized offset (width ('$' :: word))⟩] := by
  obtain ⟨c, cs, rfl, hstart, hparts⟩ := exists_of_isIdentifier h
  exact tokenize_of_name? (.inl rfl) (by simp [name?, hstart, hparts]) offset

theorem tokenize_bare (offset : Nat) : tokenize offset word = .ok [⟨ofWord word, .sized offset (width word)⟩] := by
  obtain ⟨c, cs, rfl, hstart, hparts⟩ := exists_of_isIdentifier h
  refine tokenize_of_name? (.inr hstart) ?_ offset
  have hsigil : c ≠ '$' := by
    rintro rfl
    cases hstart
  simp [name?, hstart, hparts, hsigil]

end

/-- The words that are no names. -/
def keywords : List String :=
  ["true", "false", "null", "and", "or", "not"]

theorem ofWord_of_not_keyword {word : List Char} (h : String.ofList word ∉ keywords) :
    ofWord word = .name false (String.ofList word) := by
  unfold ofWord
  split <;> simp_all [keywords]

end Lexer

/-! ## Expressions -/

namespace Parser

theorem expression_name (whole span : Span) (sigil : Bool) (word : String) :
    expression whole [⟨.name sigil word, span⟩] = .ok (.variable word span) := by
  cases sigil <;> rfl

end Parser

namespace Expr

theorem read_of_tokenize {offset : Nat} {text : List Char} {ts : Tokens} (h : Lexer.tokenize offset text = .ok ts) :
    read offset text = match Parser.expression (.sized offset (width text)) ts with
      | .ok e => .ok e
      | .error d => .error [d] := by
  rw [read, h]
  rfl

variable {word : List Char} (h : Document.isIdentifier word = true) (offset : Nat)

include h

theorem read_sigil : ∃ span, read offset ('$' :: word) = .ok (.variable (String.ofList word) span) := by
  exact ⟨_, by rw [read_of_tokenize (Lexer.tokenize_sigil h offset), Parser.expression_name]⟩

theorem read_bare_iff : (∃ span, read offset word = .ok (.variable (String.ofList word) span)) ↔
    String.ofList word ∉ Lexer.keywords := by
  rw [read_of_tokenize (Lexer.tokenize_bare h offset)]
  constructor
  · rintro ⟨_, hread⟩ hmem
    generalize hw : String.ofList word = w at hmem
    rw [Lexer.ofWord, hw] at hread
    simp only [Lexer.keywords, List.mem_cons, List.not_mem_nil, or_false] at hmem
    rcases hmem with rfl | rfl | rfl | rfl | rfl | rfl <;> cases hread
  · intro hword
    rw [Lexer.ofWord_of_not_keyword hword, Parser.expression_name]
    exact ⟨_, rfl⟩

end Expr

end Sketchwork
