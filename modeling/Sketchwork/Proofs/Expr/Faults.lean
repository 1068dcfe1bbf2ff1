/-
  Sketchwork.Proofs.Expr.Faults — what is reported of a text that is no expression.

  A scan moves on within the text (`scan_reaches`), and so does every reader of tokens: what
  it leaves, or where it stops, is an end of the tokens it was given (`leaving`). So what is
  reported lies where the text is.

  Proved: a text that is no expression has at least one fault, each of them is an error, and
  each is at a range of the text (`read_faults`).
-/
import Sketchwork.Expr.Parser
import Sketchwork.Proofs.Text.Places

namespace Sketchwork

open Text (width)

/-- An error at a place between two offsets, and nowhere else. -/
structure Diagnostic.ErrorWithin (lo hi : Nat) (d : Diagnostic) : Prop where
  isError : d.isError = true
  within : d.span.Within lo hi
  alone : d.fault.elsewhere = none

theorem Diagnostic.ErrorWithin.mono {lo hi lo' hi' : Nat} {d : Diagnostic} (h : d.ErrorWithin lo hi) (hlo : lo' ≤ lo)
    (hhi : hi ≤ hi') : d.ErrorWithin lo' hi' :=
  ⟨h.isError, h.within.mono hlo hhi, h.alone⟩

/-! ## Tokens -/

namespace Lexer

/-- A scan that began at a place has moved on, and what it found wrong is behind that place. -/
def Scan.Reaches (p : Place) : Scan → Prop
  | token _ after => p.Reaches after
  | fault d after => p.Reaches after ∧ d.ErrorWithin p.pos p.stop

theorem readText_reaches {quote : Char} (hquote : quote.utf8Size = 1) (pos : Nat) (body : List Char) :
    (readText quote ⟨pos, quote :: body⟩ body).Reaches ⟨pos, quote :: body⟩ := by
  have hstop : (⟨pos, quote :: body⟩ : Place).stop = pos + 1 + width body := by
    simp only [Place.stop, Text.width_cons, hquote, Nat.add_assoc]
  have hscan : (Quoted.escaped Quoted.unescape? quote (pos + 1) body).Within (pos + 1) (pos + 1 + width body) :=
    Quoted.escaped_within (fun _ _ => Quoted.utf8Size_of_unescape?) hquote (pos + 1) body
  unfold readText
  cases hs : Quoted.escaped Quoted.unescape? quote (pos + 1) body with
  | closed content after =>
    rw [hs] at hscan
    have hpos := hscan.1
    exact ⟨show pos ≤ after.pos by omega, by rw [hstop, hscan.2]⟩
  | badEscape bad after =>
    rw [hs] at hscan
    obtain ⟨hbad, hpos, hend⟩ := hscan
    have hle := after.pos_le_stop
    refine ⟨⟨show pos ≤ after.pos by omega, by rw [hstop, hend]⟩, rfl, .sized (show pos ≤ bad by omega) ?_, rfl⟩
    rw [hstop]
    omega
  | unclosed stop =>
    rw [hs] at hscan
    obtain ⟨hpos, rfl⟩ := hscan
    refine ⟨⟨show pos ≤ pos + 1 + width body by omega, hstop.symm⟩, rfl, ?_, rfl⟩
    exact .between (Nat.le_refl _) (show pos ≤ pos + 1 + width body by omega) (Nat.le_of_eq hstop.symm)

theorem readNumber_reaches (pos : Nat) (lexeme rest : List Char) :
    (readNumber ⟨pos, lexeme ++ rest⟩ lexeme rest).Reaches ⟨pos, lexeme ++ rest⟩ := by
  have hreach := Place.reaches_append pos lexeme rest
  unfold readNumber
  dsimp only
  split
  · exact ⟨hreach, rfl, .sized (Nat.le_refl _) hreach.le_stop, rfl⟩
  · exact hreach

theorem scan_reaches (p : Place) (hne : p.rest ≠ []) : (scan p).Reaches p := by
  obtain ⟨pos, cs⟩ := p
  unfold scan
  split
  · rename_i body h
    obtain rfl : cs = '"' :: body := h
    exact readText_reaches rfl pos body
  · rename_i body h
    obtain rfl : cs = '\'' :: body := h
    exact readText_reaches rfl pos body
  · dsimp only
    split
    · split
      · rename_i t n _
        have hreach := Place.reaches_append pos (cs.take n) (cs.drop n)
        rw [List.take_append_drop] at hreach
        exact hreach
      · refine ⟨.refl _, rfl, .sized (Nat.le_refl _) ?_, rfl⟩
        obtain ⟨c, cs, rfl⟩ := List.exists_cons_of_ne_nil hne
        have hc := c.utf8Size_pos
        simp only [Place.stop, Text.width_cons]
        omega
    · have h := readNumber_reaches pos (spanNumber cs).1 (spanNumber cs).2
      rw [spanNumber_append] at h
      exact h

/-- Tokens and faults lie behind the place where the text begins. -/
theorem run_within (p : Place) : (∀ t ∈ (run p).1, t.span.Within p.pos p.stop) ∧
    ∀ d ∈ (run p).2, d.ErrorWithin p.pos p.stop := by
  fun_induction run p with
  | case1 p pos hq => simp
  | case2 p pos c cs hq t after hs ts ds hr ih =>
    have hskip : p.Reaches ⟨pos, c :: cs⟩ := hq ▸ p.reaches_skipWhile isSpace
    have hscan : (Scan.token t after).Reaches ⟨pos, c :: cs⟩ := hs ▸ scan_reaches _ (List.cons_ne_nil c cs)
    have hafter : p.Reaches after := hskip.trans hscan
    rw [hr] at ih
    refine ⟨?_, fun d hd => (ih.2 d hd).mono hafter.pos (Nat.le_of_eq hafter.stop)⟩
    intro t' ht'
    rcases List.mem_cons.mp ht' with rfl | ht'
    · exact hskip.within hscan.between
    · exact hafter.within (ih.1 t' ht')
  | case3 p pos c cs hq d after hs ts ds hr ih =>
    have hskip : p.Reaches ⟨pos, c :: cs⟩ := hq ▸ p.reaches_skipWhile isSpace
    have hscan : (Scan.fault d after).Reaches ⟨pos, c :: cs⟩ := hs ▸ scan_reaches _ (List.cons_ne_nil c cs)
    have hafter : p.Reaches after.skip := (hskip.trans hscan.1).trans after.reaches_skip
    rw [hr] at ih
    refine ⟨fun t ht => hafter.within (ih.1 t ht), ?_⟩
    intro d' hd'
    rcases List.mem_cons.mp hd' with rfl | hd'
    · exact hscan.2.mono hskip.pos (Nat.le_of_eq hskip.stop)
    · exact (ih.2 d' hd').mono hafter.pos (Nat.le_of_eq hafter.stop)

end Lexer

/-! ## Readers of tokens -/

namespace Parser

/-- Reading leaves an end of the tokens, and where it has to stop it stops at one. -/
def Leaves {α : Type} (ts : Tokens) : Except Stop (α × Tokens) → Prop
  | .ok (_, rest) => rest <:+ ts
  | .error stop => stop.rest <:+ ts

namespace Leaves

variable {α β : Type} {ts ts' : Tokens} {x : Except Stop (α × Tokens)} {f : α × Tokens → Except Stop (β × Tokens)}

theorem behind (h : Leaves ts x) (hts : ts <:+ ts') : Leaves ts' x := by
  cases x with
  | ok a => exact List.IsSuffix.trans h hts
  | error stop => exact List.IsSuffix.trans h hts

/-- Behind one more token. -/
theorem cons (t : Spanned Token) (h : Leaves ts x) : Leaves (t :: ts) x :=
  h.behind (List.suffix_cons t ts)

theorem bind (h : Leaves ts x) (hf : ∀ a rest, Leaves rest (f (a, rest))) : Leaves ts (x >>= f) := by
  cases x with
  | ok a => exact (hf a.1 a.2).behind h
  | error stop => exact h

theorem ok (a : α) (ts : Tokens) : Leaves ts (.ok (a, ts)) :=
  List.suffix_refl ts

theorem stopped (expected : Expected) (ts : Tokens) : Leaves ts (.error ⟨expected, ts⟩ : Except Stop (α × Tokens)) :=
  List.suffix_refl ts

end Leaves

theorem expect_leaves (t : Token) (expected : Expected) (ts : Tokens) : Leaves ts (expect t expected ts) := by
  match ts with
  | [] => exact .stopped expected []
  | ⟨t', span⟩ :: ts =>
    rw [expect]
    split
    · exact .cons _ (.ok span ts)
    · exact .stopped expected _

/-- The readers, `n` deep, leave an end of the tokens. -/
structure Leaving (n : Nat) : Prop where
  conditional (ts : Tokens) : Leaves ts (conditional n ts)
  binary (t : Tier) (ts : Tokens) : Leaves ts (binary n t ts)
  operand (t : Tier) (ts : Tokens) : Leaves ts (operand n t ts)
  operations (t : Tier) (lhs : Expr) (ts : Tokens) : Leaves ts (operations n t lhs ts)
  unary (ts : Tokens) : Leaves ts (unary n ts)
  power (ts : Tokens) : Leaves ts (power n ts)
  suffixes (target : Expr) (ts : Tokens) : Leaves ts (suffixes n target ts)
  primary (ts : Tokens) : Leaves ts (primary n ts)
  items (ts : Tokens) : Leaves ts (items n ts)
  moreItems (ts : Tokens) : Leaves ts (moreItems n ts)

theorem leaving_zero : Leaving 0 := by
  constructor <;> intros <;> exact .stopped .expression _

section

variable {n : Nat} (ih : Leaving n) (ts : Tokens)
include ih

theorem conditional_leaves : Leaves ts (conditional (n + 1) ts) := by
  refine .bind (ih.binary .or ts) fun c ts => ?_
  dsimp only
  split
  · refine .cons _ (.bind (ih.conditional _) fun yes ts => ?_)
    refine .bind (expect_leaves .colon .colon ts) fun _ ts => ?_
    refine .bind (ih.conditional ts) fun no ts => ?_
    exact .ok _ ts
  · exact .ok c ts

theorem binary_leaves (t : Tier) : Leaves ts (binary (n + 1) t ts) :=
  .bind (ih.operand t ts) fun lhs ts => ih.operations t lhs ts

theorem operand_leaves (t : Tier) : Leaves ts (operand (n + 1) t ts) := by
  unfold operand
  split
  · exact ih.binary _ ts
  · exact ih.unary ts

theorem operations_leaves (t : Tier) (lhs : Expr) : Leaves ts (operations (n + 1) t lhs ts) := by
  unfold operations
  split
  · exact .ok lhs []
  · split
    · exact .ok lhs _
    · exact .cons _ (.bind (ih.operand t _) fun rhs ts => ih.operations t _ ts)

theorem unary_leaves : Leaves ts (unary (n + 1) ts) := by
  unfold unary
  split
  · exact ih.power []
  · split
    · exact ih.power _
    · exact .cons _ (.bind (ih.unary _) fun e ts => .ok _ ts)

theorem power_leaves : Leaves ts (power (n + 1) ts) := by
  refine .bind (ih.primary ts) fun base ts => ?_
  refine .bind (ih.suffixes base ts) fun base ts => ?_
  dsimp only
  split
  · exact .cons _ (.bind (ih.unary _) fun exponent ts => .ok _ ts)
  · exact .ok base ts

theorem suffixes_leaves (target : Expr) : Leaves ts (suffixes (n + 1) target ts) := by
  unfold suffixes
  split
  · refine .cons _ (.bind (ih.conditional _) fun i ts => ?_)
    exact .bind (expect_leaves .rightBracket .closingBracket ts) fun close ts => ih.suffixes _ ts
  · exact .cons _ (.cons _ (ih.suffixes _ _))
  · exact .cons _ (.stopped .identifier _)
  · exact .ok target _

theorem primary_leaves : Leaves ts (primary (n + 1) ts) := by
  unfold primary
  split
  · exact .cons _ (.ok _ _)
  · exact .cons _ (.ok _ _)
  · exact .cons _ (.ok _ _)
  · exact .cons _ (.ok _ _)
  · exact .cons _ (.ok _ _)
  · refine .cons _ (.cons _ (.bind (ih.items _) fun args ts => ?_))
    exact .bind (expect_leaves .rightParen .closingDelimiter ts) fun close ts => .ok _ ts
  · exact .cons _ (.ok _ _)
  · refine .cons _ (.bind (ih.conditional _) fun e ts => ?_)
    exact .bind (expect_leaves .rightParen .closingParen ts) fun close ts => .ok _ ts
  · refine .cons _ (.bind (ih.items _) fun es ts => ?_)
    exact .bind (expect_leaves .rightBracket .closingDelimiter ts) fun close ts => .ok _ ts
  · exact .stopped .expression _

theorem items_leaves : Leaves ts (items (n + 1) ts) := by
  unfold items
  split
  · refine .bind (ih.conditional ts) fun e ts => ?_
    exact .bind (ih.moreItems ts) fun es ts => .ok _ ts
  · exact .ok [] ts

theorem moreItems_leaves : Leaves ts (moreItems (n + 1) ts) := by
  unfold moreItems
  split
  · split
    · refine .cons _ (.bind (ih.conditional _) fun e ts => ?_)
      exact .bind (ih.moreItems ts) fun es ts => .ok _ ts
    · exact .ok [] _
  · exact .ok [] _

end

theorem leaving (n : Nat) : Leaving n := by
  induction n with
  | zero => exact leaving_zero
  | succ n ih =>
    exact {
      conditional := conditional_leaves ih
      binary := fun t ts => binary_leaves ih ts t
      operand := fun t ts => operand_leaves ih ts t
      operations := fun t lhs ts => operations_leaves ih ts t lhs
      unary := unary_leaves ih
      power := power_leaves ih
      suffixes := fun target ts => suffixes_leaves ih ts target
      primary := primary_leaves ih
      items := items_leaves ih
      moreItems := moreItems_leaves ih }

/-- A fault is at one of the tokens, or at the last byte of a text that ends too early. -/
theorem expression_fault {whole : Span} {ts : Tokens} {d : Diagnostic} {lo : Nat} (hlo : lo ≤ whole.stop - 1)
    (hts : ∀ t ∈ ts, t.span.Within lo whole.stop) (h : expression whole ts = .error d) :
    d.ErrorWithin lo whole.stop := by
  have hleaves := (leaving (depthBound ts)).conditional ts
  unfold expression at h
  split at h
  · cases h
  · rename_i e t rest hr
    rw [hr] at hleaves
    cases h
    exact ⟨rfl, hts t (hleaves.subset List.mem_cons_self), rfl⟩
  · rename_i expected t rest hr
    rw [hr] at hleaves
    cases h
    exact ⟨rfl, hts t (hleaves.subset List.mem_cons_self), rfl⟩
  · cases h
    exact ⟨rfl, .between hlo (Nat.sub_le _ _) (Nat.le_refl _), rfl⟩

end Parser

/-- What is reported of a text that is no expression. -/
theorem Expr.read_faults {offset : Nat} {text : List Char} {ds : List Diagnostic} (hne : text ≠ [])
    (h : Expr.read offset text = .error ds) : ds ≠ [] ∧ ∀ d ∈ ds, d.ErrorWithin offset (offset + width text) := by
  obtain ⟨htokens, hfaults⟩ := Lexer.run_within ⟨offset, text⟩
  have hwidth : 0 < width text := Text.width_pos hne
  unfold Expr.read Lexer.tokenize at h
  generalize hr : Lexer.run ⟨offset, text⟩ = r at h htokens hfaults
  obtain ⟨ts, faults⟩ := r
  cases faults with
  | cons d ds' =>
    cases h
    exact ⟨List.cons_ne_nil _ _, hfaults⟩
  | nil =>
    dsimp only [bind, Except.bind] at h
    split at h
    · cases h
    · rename_i d hd
      cases h
      refine ⟨List.cons_ne_nil _ _, ?_⟩
      intro d' hd'
      obtain rfl := List.mem_singleton.mp hd'
      exact Parser.expression_fault (by simp only [Span.sized]; omega) htokens hd

end Sketchwork
