/-
  Sketchwork.Proofs.Expr.Lexemes — how tokens are written.

  A token can be written in more than one way: a number with or without a point or an exponent, a
  text between either quote. `Writes` holds of what a writer may put down for a token, and `Joined`
  of words that stand one after the other with spaces between them.

  Proved: each word that is written for a token is read as this token and nothing else
  (`Writes.tokenize_eq`), whatever the text between its quotes (`escaped_marked`), and words with
  spaces between them as their tokens (`Joined.exists_run_eq`).
-/
import Sketchwork.Proofs.Expr.Scanning
import Sketchwork.Proofs.Outline.Words

namespace Sketchwork

open Text (width)

/-- The tokens that are written in one way only: keywords, operators and brackets. -/
def Token.isFixed : Token → Bool
  | number _ | text _ | name _ _ => Bool.false
  | _ => Bool.true

namespace Lexer

/-- A character between quotes, behind a backslash where it needs one. -/
def marked (quote c : Char) : List Char :=
  if c = quote ∨ c = '\\' then ['\\', c] else [c]

/-- A word that is written for a token. -/
inductive Writes : List Char → Token → Prop
  | fixed (t : Token) (h : t.isFixed = true) : Writes t.shown.toList t
  | bare {word : List Char} (h : Document.isIdentifier word = true) (hword : String.ofList word ∉ keywords) :
      Writes word (.name false (String.ofList word))
  | sigil {word : List Char} (h : Document.isIdentifier word = true) :
      Writes ('$' :: word) (.name true (String.ofList word))
  | number (n : Layout.Numeral) (h : n.sign = .none) : Writes n.text (.number n.value)
  | text {quote : Char} (h : quote = '"' ∨ quote = '\'') (content : List Char) :
      Writes (quote :: (content.flatMap (marked quote) ++ [quote])) (.text (String.ofList content))

/-- Tokens that are written one after the other, each followed by a space or by nothing. -/
inductive Joined : List Char → List Token → Prop
  | nil {gap : List Char} (h : ∀ c ∈ gap, isSpace c = true) : Joined gap []
  | cons {gap word more : List Char} {t : Token} {ts : List Token} (hgap : ∀ c ∈ gap, isSpace c = true)
      (hword : Writes word t) (hends : ∀ c ∈ more.head?, isSpace c = true) (hmore : Joined more ts) :
      Joined (gap ++ (word ++ more)) (t :: ts)

/-! ## Texts -/

section

variable {quote : Char} (hquote : quote = '"' ∨ quote = '\'')

include hquote

theorem escaped_marked_append (c : Char) (pos : Nat) (more : List Char) :
    Quoted.escaped Quoted.unescape? quote pos (marked quote c ++ more) =
      (Quoted.escaped Quoted.unescape? quote (pos + width (marked quote c)) more).cons c := by
  by_cases hmarked : c = quote ∨ c = '\\'
  · have hescape : Quoted.unescape? c = some c := by
      rcases hmarked with rfl | rfl
      · rcases hquote with rfl | rfl <;> rfl
      · rfl
    have hslash : '\\'.utf8Size = 1 := rfl
    rw [marked, if_pos hmarked, List.cons_append, List.singleton_append, Quoted.escaped.eq_def]
    simp [hescape, hslash, Nat.add_assoc]
  · obtain ⟨hc, hslash⟩ := not_or.mp hmarked
    rw [marked, if_neg hmarked, List.singleton_append, Quoted.escaped.eq_def]
    simp [hc, hslash]

/-- What is found between the quotes is what was written there. -/
theorem escaped_marked (content : List Char) : ∀ (pos : Nat) (more : List Char),
    Quoted.escaped Quoted.unescape? quote pos (content.flatMap (marked quote) ++ quote :: more) =
      .closed content ⟨pos + width (content.flatMap (marked quote)) + 1, more⟩ := by
  have hslash : quote ≠ '\\' := by
    rcases hquote with rfl | rfl <;> decide
  induction content with
  | nil =>
    intro pos more
    rw [List.flatMap_nil, List.nil_append, Quoted.escaped.eq_def]
    simp [hslash]
  | cons c content ih =>
    intro pos more
    rw [List.flatMap_cons, List.append_assoc, escaped_marked_append hquote, ih, Text.width_append]
    simp only [Quoted.Scan.cons, Nat.add_assoc]

theorem tokenize_quoted (content : List Char) (offset : Nat) :
    tokenize offset (quote :: (content.flatMap (marked quote) ++ [quote])) = .ok [⟨.text (String.ofList content),
      .sized offset (width (quote :: (content.flatMap (marked quote) ++ [quote])))⟩] := by
  have hspace : isSpace quote = false := by
    rcases hquote with rfl | rfl <;> rfl
  refine tokenize_of_scan hspace ?_
  rw [scan_quote hquote, readText, escaped_marked hquote]
  simp only [Text.width_cons, Text.width_append, Text.width_nil, utf8Size_quote hquote, Nat.add_zero, Nat.add_assoc]

end

/-! ## Numbers -/

section

variable (n : Layout.Numeral)

theorem spanExponent_exponent :
    spanExponent (n.exponent.elim [] Layout.Exponent.text) = (n.exponent.elim [] Layout.Exponent.text, []) := by
  cases n.exponent with
  | none => rfl
  | some e =>
    have hsign : (((e.sign.text ++ e.size.chars).take 1).filter fun c => c = '+' || c = '-') = e.sign.text := by
      have hself : ((e.sign.text.take 1).filter fun c => c = '+' || c = '-') = e.sign.text := by
        cases e.sign <;> rfl
      rw [← List.append_nil (e.sign.text ++ e.size.chars)]
      exact sign_again hself e.size.isDigit e.size_ne_nil
    have hdigits : Decimal.spanDigits e.size.chars = (e.size.chars, []) := by
      have hexact := Decimal.spanDigits_exact (b := []) e.size.isDigit (fun _ hc => by cases hc)
      rwa [List.append_nil] at hexact
    have hmark : (e.mark = 'e' || e.mark = 'E') = true := by
      simpa using e.isMark
    rw [Option.elim_some, Layout.Exponent.text, spanExponent, if_pos hmark]
    dsimp only
    rw [hsign, List.drop_left, hdigits]
    simp [e.size_ne_nil]

theorem spanMantissa_body : spanMantissa n.body =
    (n.whole.chars ++ n.fraction, n.exponent.elim [] Layout.Exponent.text) := by
  have hexponent := n.isDigit_head?_exponent
  unfold spanMantissa Layout.Numeral.body Layout.Numeral.fraction
  cases hplaces : n.places with
  | none =>
    rw [Option.elim_none, List.nil_append, Decimal.spanDigits_exact n.whole.isDigit hexponent]
    dsimp only
    split
    · rename_i tail htail
      rcases n.head?_exponent '.' (by rw [htail]; rfl) with h | h <;> cases h
    · rw [List.append_nil]
  | some places =>
    have hpoint : ∀ c ∈ ('.' :: (places.chars ++ n.exponent.elim [] Layout.Exponent.text)).head?,
        c.isDigit = false := by
      rintro _ ⟨⟩
      rfl
    have hsome : ¬(n.whole.chars.isEmpty && places.chars.isEmpty) = true := by
      rcases n.digit with h | ⟨ds, hp, h⟩
      · simp [h]
      · cases hplaces.symm.trans hp
        simp [h]
    rw [Option.elim_some, List.cons_append, Decimal.spanDigits_exact n.whole.isDigit hpoint]
    simp only [Decimal.spanDigits_exact places.isDigit hexponent]
    exact if_neg hsome

theorem spanNumber_body : spanNumber n.body = (n.body, []) := by
  have hsome : ¬(n.whole.chars ++ n.fraction).isEmpty = true := by
    unfold Layout.Numeral.fraction
    rcases n.digit with h | ⟨ds, hp, h⟩
    · simp [h]
    · simp [hp]
  rw [spanNumber, spanMantissa_body]
  dsimp only
  rw [if_neg hsome, spanExponent_exponent, List.append_assoc, Layout.Numeral.body]

theorem tokenize_numeral (hsign : n.sign = .none) (offset : Nat) :
    tokenize offset n.text = .ok [⟨.number n.value, .sized offset (width n.text)⟩] := by
  have htext : n.text = n.body := by
    rw [Layout.Numeral.text, hsign]
    rfl
  have hread : Decimal.read? n.body = some n.value := by
    rw [Decimal.read?, ← htext, n.read?_text]
    rfl
  obtain ⟨c, cs, hbody, hc⟩ := n.exists_cons_of_body
  have hnot {d : Char} (hd : d.isDigit = false) (hpoint : d ≠ '.') : c ≠ d := by
    rintro rfl
    rcases hc with hc | ⟨hc, -⟩
    · rw [hd] at hc
      cases hc
    · exact hpoint hc
  have hspace : isSpace c = false := by
    simp [isSpace, hnot (d := ' ') rfl (by decide), hnot (d := '\t') rfl (by decide),
      hnot (d := '\r') rfl (by decide), hnot (d := '\n') rfl (by decide)]
  have hplain : Plain (c :: cs) := by
    simp [Plain, hnot (d := '"') rfl (by decide), hnot (d := '\'') rfl (by decide)]
  have hspan := spanNumber_body n
  rw [htext, hbody]
  rw [hbody] at hread hspan
  refine tokenize_of_scan hspace ?_
  rw [scan_plain hplain, hspan]
  simp [readNumber, hread]

end

/-! ## Words -/

/-- Keywords, operators and brackets are read back from how messages show them. -/
theorem tokenize_fixed {t : Token} (h : t.isFixed = true) (offset : Nat) :
    tokenize offset t.shown.toList = .ok [⟨t, .sized offset (width t.shown.toList)⟩] := by
  cases t with
  | number | text | name => cases h
  | true | false | null | and | or | not => exact tokenize_bare (by decide) offset
  | _ => exact tokenize_of_scan rfl rfl

theorem Writes.tokenize_eq {word : List Char} {t : Token} (h : Writes word t) (offset : Nat) :
    tokenize offset word = .ok [⟨t, .sized offset (width word)⟩] := by
  cases h with
  | fixed _ hfixed => exact tokenize_fixed hfixed offset
  | bare hident hword =>
    rw [tokenize_bare hident, ofWord_of_not_keyword hword]
  | sigil hident => exact tokenize_sigil hident offset
  | number n hsign => exact tokenize_numeral n hsign offset
  | text hquote content => exact tokenize_quoted hquote content offset

theorem Joined.exists_run_eq {text : List Char} {ts : List Token} (h : Joined text ts) :
    ∀ pos, ∃ spanned, run ⟨pos, text⟩ = (spanned, []) ∧ spanned.map Spanned.value = ts := by
  induction h with
  | nil hgap => exact fun pos => ⟨[], run_of_blank hgap pos, rfl⟩
  | @cons gap word more t ts hgap hword hends _ ih =>
    intro pos
    have hfirst := tokenize_eq_ok_iff.mp (hword.tokenize_eq (pos + width gap))
    have hbehind := run_append more (fun c hc => by simp [endsToken, hends c hc]) hfirst
    obtain ⟨spanned, hmore, rfl⟩ := ih (pos + width gap + width word)
    refine ⟨⟨t, .sized (pos + width gap) (width word)⟩ :: spanned, ?_, rfl⟩
    rw [run_blank_append hgap, hbehind, Place.stop, hmore]
    rfl

end Lexer

end Sketchwork
