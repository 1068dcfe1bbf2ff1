/-
  Sketchwork.Proofs.Expr.Tiling — the tokens of a text lie over it without a gap that matters.

  What is in no token is a space, and a token is read again from its own characters alone
  (`First.again`). So a text can be cut behind any of its tokens (`run_split`), and what stands
  between two of them is free as long as it keeps them apart.

  Proved: splitting a text into tokens takes at most as many turns as it has characters, tokens
  tile a text that has no faults (`Tiles`), and whatever is written for a list of tokens is split
  into these tokens again (`tokenize_tiling`).
-/
import Sketchwork.Proofs.Expr.Lexemes

namespace Sketchwork

open Text (width)

/-! ## Bytes -/

/-- The byte at an offset is one of those of a character of the text. -/
def Place.HasByte (p : Place) (c : Char) (i : Nat) : Prop :=
  ∃ before behind, p.rest = before ++ c :: behind ∧ p.pos + width before ≤ i ∧ i < p.pos + width before + c.utf8Size

/-- A byte stands in what has been read or in what is left. -/
theorem Place.HasByte.cut {p q : Place} {part : List Char} {c : Char} {i : Nat} (h : p.HasByte c i)
    (hover : p.Over part q) : (c ∈ part ∧ p.pos ≤ i ∧ i < q.pos) ∨ q.HasByte c i := by
  obtain ⟨before, behind, hrest, hlo, hhi⟩ := h
  rcases List.append_eq_append_iff.mp (hrest.symm.trans hover.rest) with ⟨more, rfl, hmore⟩ | ⟨more, rfl, hmore⟩
  · cases more with
    | nil =>
      rw [List.nil_append] at hmore
      refine .inr ⟨[], behind, hmore.symm, ?_, ?_⟩ <;> simp only [hover.pos, List.append_nil, Text.width_nil] <;> omega
    | cons d more =>
      obtain ⟨rfl, -⟩ := List.cons.inj hmore
      refine .inl ⟨List.mem_append_right before List.mem_cons_self, by omega, ?_⟩
      rw [hover.pos, Text.width_append, Text.width_cons]
      omega
  · refine .inr ⟨more, behind, hmore, ?_, ?_⟩ <;> rw [hover.pos] <;> rw [Text.width_append] at * <;> omega

namespace Lexer

/-- Other spaces between two tokens, in place of those that stand there, change no token: those in
    front stay where they are, and those behind move with the text. -/
def Respaces (p : Place) (front : List (Spanned Token)) (t t' : Spanned Token) (back : List (Spanned Token)) : Prop :=
  ∃ left gap right, p.rest = left ++ (gap ++ right) ∧ t.span.stop = p.pos + width left ∧
    t'.span.start = t.span.stop + width gap ∧ (∀ c ∈ gap, isSpace c = true) ∧
    ∀ other, other ≠ [] → (∀ c ∈ other, isSpace c = true) → ∃ moved,
      tokenize p.pos (left ++ (other ++ right)) = .ok (front ++ t :: moved) ∧
        moved.map (Spanned.shift (width gap)) = (t' :: back).map (Spanned.shift (width other))

/-- Tokens lie over a text side by side. -/
structure Tiles (p : Place) (ts : List (Spanned Token)) : Prop where
  order : InOrder ts
  within : ∀ t ∈ ts, t.span.Within p.pos p.stop ∧ t.span.start < t.span.stop
  blank : ∀ c i, p.HasByte c i → (∀ t ∈ ts, ¬(t.span.start ≤ i ∧ i < t.span.stop)) → isSpace c = true
  /-- The characters of a token are read as this token alone, wherever they stand. -/
  alone : ∀ t ∈ ts, ∃ word, p.Shows t.span word ∧
    ∀ offset, tokenize offset word = .ok [⟨t.value, .sized offset (width word)⟩]
  respaces : ∀ front t t' back, ts = front ++ t :: t' :: back → Respaces p front t t' back

/-! ## Turns -/

/-- Every turn takes a character away at least. -/
theorem run_length_le (p : Place) : (run p).1.length + (run p).2.length ≤ p.rest.length := by
  have skipped {p : Place} {pos : Nat} {c : Char} {cs : List Char} (hskip : p.skipWhile isSpace = ⟨pos, c :: cs⟩) :
      (c :: cs).length ≤ p.rest.length := by
    have hle := p.skipWhile_length_le isSpace
    rwa [hskip] at hle
  fun_induction run p with
  | case1 => exact Nat.zero_le _
  | case2 p pos c cs hskip t after hs ts faults hrun ih =>
    have hforward : (Scan.token t after).Forward (c :: cs) := hs ▸ scan_forward (List.cons_ne_nil c cs)
    have hle := skipped hskip
    rw [hrun] at ih
    simp only [Scan.Forward, List.length_cons] at *
    omega
  | case3 p pos c cs hskip d after hs ts faults hrun ih =>
    have hforward : (Scan.fault d after).Forward (c :: cs) := hs ▸ scan_forward (List.cons_ne_nil c cs)
    have hshorter := Place.skip_length_lt (Nat.zero_lt_succ _) hforward
    have hle := skipped hskip
    rw [hrun] at ih
    simp only [List.length_cons] at *
    omega

/-! ## Tokens of a text -/

section

variable {p after : Place} {t : Spanned Token} {ts : List (Spanned Token)} {spaces word : List Char}

theorem First.over (h : First p t ts spaces word after) : p.Over (spaces ++ word) after := by
  refine ⟨by rw [h.rest, List.append_assoc], ?_⟩
  have hpos : after.pos = t.span.start + width word := h.takes.covers.pos
  rw [hpos, h.start, Text.width_append, Nat.add_assoc]

end

theorem nonempty_of_run {ts : List (Spanned Token)} : ∀ {p : Place}, run p = (ts, []) →
    ∀ t ∈ ts, t.span.start < t.span.stop := by
  induction ts with
  | nil => exact fun _ t ht => absurd ht List.not_mem_nil
  | cons t ts ih =>
    intro p h
    obtain ⟨spaces, word, after, hfirst⟩ := exists_of_run_eq_cons h
    refine List.forall_mem_cons.mpr ⟨?_, ih hfirst.behind⟩
    have hword := Text.width_pos hfirst.takes.inked.ne_nil
    have hstop := hfirst.stop
    omega

theorem isSpace_of_run {ts : List (Spanned Token)} {c : Char} {i : Nat} : ∀ {p : Place}, run p = (ts, []) →
    p.HasByte c i → (∀ t ∈ ts, ¬(t.span.start ≤ i ∧ i < t.span.stop)) → isSpace c = true := by
  induction ts with
  | nil =>
    rintro p h ⟨before, behind, hrest, -⟩ -
    exact blank_of_run_eq_nil h c (by simp [hrest])
  | cons t ts ih =>
    intro p h hbyte hnone
    obtain ⟨spaces, word, after, hfirst⟩ := exists_of_run_eq_cons h
    obtain ⟨hhead, htail⟩ := List.forall_mem_cons.mp hnone
    have hspaces : p.Over spaces ⟨t.span.start, word ++ after.rest⟩ := ⟨hfirst.rest, hfirst.start⟩
    rcases hbyte.cut hspaces with ⟨hc, -⟩ | hbyte
    · exact hfirst.blank c hc
    rcases hbyte.cut hfirst.takes.covers with ⟨-, hlo, hhi⟩ | hbyte
    · have hpos : after.pos = t.span.start + width word := hfirst.takes.covers.pos
      exact absurd ⟨hlo, by rw [hfirst.stop, ← hpos]; exact hhi⟩ hhead
    · exact ih hfirst.behind hbyte htail

theorem alone_of_run {ts : List (Spanned Token)} : ∀ {p : Place}, run p = (ts, []) →
    ∀ t ∈ ts, ∃ word, p.Shows t.span word ∧
      ∀ offset, tokenize offset word = .ok [⟨t.value, .sized offset (width word)⟩] := by
  induction ts with
  | nil => exact fun _ t ht => absurd ht List.not_mem_nil
  | cons t ts ih =>
    intro p h
    obtain ⟨spaces, word, after, hfirst⟩ := exists_of_run_eq_cons h
    refine List.forall_mem_cons.mpr ⟨⟨word, ⟨spaces, after.rest, hfirst.rest, hfirst.start, hfirst.stop⟩, ?_⟩, ?_⟩
    · intro offset
      have hagain := hfirst.again (.of_isPrefix List.nil_prefix) (fun _ hc => absurd hc List.not_mem_nil) offset
      rw [List.nil_append, List.append_nil, run_nil] at hagain
      exact tokenize_eq_ok_iff.mpr hagain
    · intro u hu
      obtain ⟨part, hshows, hpart⟩ := ih hfirst.behind u hu
      exact ⟨part, hfirst.over.shows hshows, hpart⟩

/-- A text can be cut behind each of its tokens. -/
theorem run_split {front back : List (Spanned Token)} {t : Spanned Token} : ∀ {p : Place},
    run p = (front ++ t :: back, []) → ∃ left rest, p.rest = left ++ rest ∧ t.span.stop = p.pos + width left ∧
      run ⟨p.pos, left⟩ = (front ++ [t], []) ∧ run ⟨t.span.stop, rest⟩ = (back, []) := by
  induction front with
  | nil =>
    intro p h
    obtain ⟨spaces, word, after, hfirst⟩ := exists_of_run_eq_cons h
    have hleft := hfirst.front List.nil_prefix (run_nil _) spaces hfirst.blank hfirst.start
    have hpos : after.pos = t.span.stop := by rw [hfirst.stop]; exact hfirst.takes.covers.pos
    rw [List.append_nil] at hleft
    refine ⟨spaces ++ word, after.rest, hfirst.over.rest, ?_, hleft, ?_⟩
    · rw [← hpos, hfirst.over.pos]
    · rw [← hpos]
      exact hfirst.behind
  | cons u front ih =>
    intro p h
    obtain ⟨spaces, word, after, hfirst⟩ := exists_of_run_eq_cons h
    obtain ⟨left, rest, hrest, hstop, hleft, hback⟩ := ih hfirst.behind
    have hprefix : left <+: after.rest := ⟨rest, hrest.symm⟩
    refine ⟨spaces ++ (word ++ left), rest, ?_, ?_, hfirst.front hprefix hleft spaces hfirst.blank hfirst.start, hback⟩
    · rw [hfirst.rest, hrest]
      simp only [List.append_assoc]
    · rw [hstop, hfirst.over.pos]
      simp only [Text.width_append, Nat.add_assoc]

theorem respaces_of_run {p : Place} {front back : List (Spanned Token)} {t t' : Spanned Token}
    (h : run p = (front ++ t :: t' :: back, [])) : Respaces p front t t' back := by
  obtain ⟨left, rest, hrest, hstop, hleft, hback⟩ := run_split h
  obtain ⟨gap, word, after, hfirst⟩ := exists_of_run_eq_cons hback
  have hright : run ⟨t.span.stop + width gap, word ++ after.rest⟩ = (t' :: back, []) := by
    rw [← run_blank_append hfirst.blank, ← hfirst.rest]
    exact hback
  obtain ⟨placed, hplaced, hagain⟩ := exists_of_run_eq hright
  refine ⟨left, gap, word ++ after.rest, by rw [hrest]; exact congrArg (left ++ ·) hfirst.rest, hstop, hfirst.start,
    hfirst.blank, fun other hne hother => ?_⟩
  refine ⟨placed.map (Spanned.shift (t.span.stop + width other)), ?_, ?_⟩
  · have hends : ∀ c ∈ (other ++ (word ++ after.rest)).head?, endsToken c = true := by
      intro c hc
      rw [List.head?_append_of_ne_nil _ hne] at hc
      simp [endsToken, hother c (List.mem_of_mem_head? hc)]
    have hbehind := run_append _ hends hleft
    have hend : (⟨p.pos, left⟩ : Place).stop = t.span.stop := hstop.symm
    rw [hend, run_blank_append hother, hagain] at hbehind
    rw [tokenize_eq_ok_iff, hbehind, List.append_assoc, List.singleton_append]
  · rw [hplaced, List.map_map, List.map_map]
    refine List.map_congr_left fun u _ => ?_
    simp only [Function.comp_apply, Spanned.shift, Span.shift, Spanned.mk.injEq, Span.mk.injEq, true_and]
    omega

/-! ## Tiling -/

/-- Splitting a text takes at most one turn a character; tokens that are found tile it; and tokens
    that are written with spaces between them are found again. -/
theorem tokenize_tiling (offset : Nat) (text : List Char) :
    (run ⟨offset, text⟩).1.length + (run ⟨offset, text⟩).2.length ≤ text.length ∧
      (∀ ts, tokenize offset text = .ok ts → Tiles ⟨offset, text⟩ ts) ∧
        ∀ written, Joined text written → ∃ ts, tokenize offset text = .ok ts ∧ ts.map Spanned.value = written := by
  refine ⟨run_length_le _, fun ts h => ?_, fun written h => ?_⟩
  · have hrun := tokenize_eq_ok_iff.mp h
    have hwithin := (run_within ⟨offset, text⟩).1
    rw [hrun] at hwithin
    exact {
      order := inOrder_of_run hrun
      within := fun t ht => ⟨hwithin t ht, nonempty_of_run hrun t ht⟩
      blank := fun c i hbyte hnone => isSpace_of_run hrun hbyte hnone
      alone := alone_of_run hrun
      respaces := fun front t t' back hts => respaces_of_run (hts ▸ hrun) }
  · obtain ⟨ts, hrun, hvalues⟩ := h.exists_run_eq offset
    exact ⟨ts, tokenize_eq_ok_iff.mpr hrun, hvalues⟩

end Lexer

end Sketchwork
