/-
  Sketchwork.Proofs.Expr.Scanning — tokens come from the characters they are written with.

  A scan looks at most one character ahead, so what it has taken gives the same token again,
  wherever it stands: alone, before a space or a closing parenthesis, or before whatever begins
  as what it left does (`scan_takes`).

  Proved: tokens that stand next to each other are the tokens of the part of the text they
  take, which begins with the first of them, ends with the last and has a space at neither
  end (`run_part`).
-/
import Sketchwork.Proofs.Expr.Faults
import Sketchwork.Proofs.Expr.Variables
import Sketchwork.Proofs.Text.Parts

namespace Sketchwork

open Text (width)

namespace Lexer

/-! ## Names and operators -/

/-- The first `n` characters of a text are no spaces, and before whatever begins as what follows
    them does a reader returns the same. -/
def TakesWord (read : List Char → Option (Token × Nat)) (cs : List Char) (t : Token) (n : Nat) : Prop :=
  ∃ word rest, cs = word ++ rest ∧ word.length = n ∧ ' ' ∉ word ∧
    ∀ more, Sequel rest more → read (word ++ more) = some (t, n)

section

variable {cs : List Char} {t : Token} {n : Nat}

theorem not_space_of_isNameStart {c : Char} (h : isNameStart c = true) : ' ' ≠ c := by
  rintro rfl
  cases h

theorem isNamePart_of_endsToken (c : Char) (h : endsToken c = true) : isNamePart c = false := by
  rcases eq_of_endsToken h with rfl | rfl | rfl | rfl | rfl <;> rfl

theorem name?_takes (h : name? cs = some (t, n)) : TakesWord name? cs t n := by
  have hparts (cs : List Char) : ' ' ∉ cs.takeWhile isNamePart := by
    intro hmem
    have hpart := List.mem_takeWhile_imp hmem
    cases hpart
  have hagain {cs more : List Char} (hmore : Sequel (cs.dropWhile isNamePart) more) :
      (cs.takeWhile isNamePart ++ more).takeWhile isNamePart = cs.takeWhile isNamePart :=
    (Text.takeWhile_dropWhile_append (fun c hc => List.mem_takeWhile_imp hc)
      (hmore.head Text.head?_dropWhile isNamePart_of_endsToken)).1
  unfold name? at h
  split at h
  · rename_i c cs
    split at h
    · rename_i hstart
      cases h
      refine ⟨'$' :: c :: cs.takeWhile isNamePart, cs.dropWhile isNamePart, ?_, rfl, ?_, fun more hmore => ?_⟩
      · simp
      · simp [hparts, not_space_of_isNameStart hstart]
      · simp [name?, hstart, hagain hmore]
    · cases h
  · rename_i c cs hsigil
    split at h
    · rename_i hstart
      cases h
      have hc : c ≠ '$' := by
        rintro rfl
        cases hstart
      refine ⟨c :: cs.takeWhile isNamePart, cs.dropWhile isNamePart, ?_, rfl, ?_, fun more hmore => ?_⟩
      · simp
      · simp [hparts, not_space_of_isNameStart hstart]
      · simp [name?, hstart, hc, hagain hmore]
    · cases h
  · cases h

/-- An operator is no name. -/
theorem name?_of_operator? (h : operator? cs = some (t, n)) : name? cs = none := by
  unfold operator? at h
  split at h <;> cases h <;> rfl

theorem operator?_takes (h : operator? cs = some (t, n)) : TakesWord operator? cs t n := by
  have two {a b : Char} {rest : List Char} (hn : n = 2) (ha : ' ' ≠ a) (hb : ' ' ≠ b)
      (hread : ∀ more, operator? (a :: b :: more) = some (t, n)) : TakesWord operator? (a :: b :: rest) t n :=
    ⟨[a, b], rest, rfl, hn.symm, by simp [ha, hb], fun more _ => hread more⟩
  have one {a : Char} {rest : List Char} (hn : n = 1) (ha : ' ' ≠ a)
      (hread : ∀ more, Sequel rest more → operator? (a :: more) = some (t, n)) : TakesWord operator? (a :: rest) t n :=
    ⟨[a], rest, rfl, hn.symm, by simp [ha], hread⟩
  -- an operator that begins a longer one is not read where that one is
  have short {rest more : List Char} (hlong : ∀ cs, rest = '=' :: cs → False) (hmore : Sequel rest more) :
      ∀ d ∈ more.head?, d ≠ '=' := by
    rintro _ hd rfl
    rcases hmore '=' hd with hrest | hends
    · obtain ⟨behind, rfl⟩ := List.head?_eq_some_iff.mp hrest
      exact hlong behind rfl
    · cases hends
  unfold operator? at h
  split at h <;> cases h
  iterate 6 exact two rfl (by decide) (by decide) fun _ => rfl
  iterate 6 exact one rfl (by decide) fun _ _ => rfl
  iterate 3
    rename_i hlong
    refine one rfl (by decide) fun more hmore => ?_
    cases more with
    | nil => rfl
    | cons d more =>
      have hd := short hlong hmore d rfl
      simp [operator?, hd]
  all_goals exact one rfl (by decide) fun _ _ => rfl

end

/-! ## Scans -/

/-- What a scan takes: characters of which the first and the last are no spaces, and which give
    the same token anywhere before what begins as what it left does. -/
structure Takes (p : Place) (t : Token) (after : Place) (part : List Char) : Prop where
  covers : p.Over part after
  inked : Text.Inked part
  again : ∀ pos more, Sequel after.rest more → scan ⟨pos, part ++ more⟩ = .token t ⟨pos + width part, more⟩

theorem Takes.of_not_mem {p after : Place} {t : Token} {part : List Char} (hne : part ≠ []) (hspace : ' ' ∉ part)
    (hover : p.Over part after)
    (hagain : ∀ pos more, Sequel after.rest more → scan ⟨pos, part ++ more⟩ = .token t ⟨pos + width part, more⟩) :
    Takes p t after part :=
  ⟨hover, ⟨hne, fun h => hspace (List.mem_of_head? h), fun h => hspace (List.mem_of_getLast? h)⟩, hagain⟩

section

variable {quote : Char} (hquote : quote = '"' ∨ quote = '\'')

include hquote

theorem utf8Size_quote : quote.utf8Size = 1 := by
  rcases hquote with rfl | rfl <;> rfl

theorem scan_quote (pos : Nat) (body : List Char) :
    scan ⟨pos, quote :: body⟩ = readText quote ⟨pos, quote :: body⟩ body := by
  rcases hquote with rfl | rfl <;> rfl

theorem readText_takes {pos : Nat} {body : List Char} {t : Token} {after : Place}
    (h : readText quote ⟨pos, quote :: body⟩ body = .token t after) : ∃ part, Takes ⟨pos, quote :: body⟩ t after part := by
  have hwidth := utf8Size_quote hquote
  have hspace : quote ≠ ' ' := by
    rcases hquote with rfl | rfl <;> decide
  unfold readText at h
  split at h
  · rename_i content after' hclosed
    cases h
    obtain ⟨inner, hover, hagain⟩ := Quoted.escaped_anywhere hwidth hclosed
    refine ⟨_, .cons hwidth hover, Quoted.inked hspace inner, fun pos more _ => ?_⟩
    rw [List.cons_append, scan_quote hquote, readText, List.append_assoc, List.singleton_append, hagain (pos + 1) more,
      Text.width_cons, hwidth, Nat.add_assoc]
  · cases h
  · cases h

end

/-- A text that begins with no quote is read as a number, a name or an operator. -/
def Plain (cs : List Char) : Prop :=
  cs.head? ≠ some '"' ∧ cs.head? ≠ some '\''

theorem Plain.of_append {a b : List Char} (h : Plain (a ++ b)) (ha : a ≠ []) (more : List Char) :
    Plain (a ++ more) := by
  obtain ⟨c, a, rfl⟩ := List.exists_cons_of_ne_nil ha
  exact h

theorem scan_plain {pos : Nat} {cs : List Char} (h : Plain cs) : scan ⟨pos, cs⟩ =
    if (spanNumber cs).1.isEmpty then
      match (name? cs).or (operator? cs) with
      | some (t, n) => .token t ⟨pos + width (cs.take n), cs.drop n⟩
      | none => .fault ⟨.strayCharacter, .sized pos 1⟩ ⟨pos, cs⟩
    else readNumber ⟨pos, cs⟩ (spanNumber cs).1 (spanNumber cs).2 := by
  unfold scan
  split
  · rename_i hrest
    obtain rfl : cs = _ := hrest
    exact absurd rfl h.1
  · rename_i hrest
    obtain rfl : cs = _ := hrest
    exact absurd rfl h.2
  · rfl

theorem scan_number {pos : Nat} {a b : List Char} (h : Plain (a ++ b)) (ha : a ≠ [])
    (hspan : spanNumber (a ++ b) = (a, b)) : scan ⟨pos, a ++ b⟩ = readNumber ⟨pos, a ++ b⟩ a b := by
  rw [scan_plain h, hspan, if_neg (by simpa using ha)]

theorem readNumber_takes {pos : Nat} {a b : List Char} {t : Token} {after : Place} (hplain : Plain (a ++ b))
    (ha : a ≠ []) (hspan : spanNumber (a ++ b) = (a, b)) (h : readNumber ⟨pos, a ++ b⟩ a b = .token t after) :
    Takes ⟨pos, a ++ b⟩ t after a := by
  have hspace : ' ' ∉ a := by
    have hnone : ' ' ∉ (spanNumber (a ++ b)).1 := spanNumber_no_space
    rwa [hspan] at hnone
  unfold readNumber at h
  dsimp only at h
  split at h
  · cases h
  · rename_i hglued
    cases h
    have hglue : ∀ c ∈ b.head?, gluesToNumber c = false := by
      intro c hc
      rw [← Bool.not_eq_true]
      intro htrue
      refine hglued ?_
      rw [Option.mem_def.mp hc, Option.map_some, htrue]
    refine .of_not_mem ha hspace (Place.over_append pos a b) fun pos more hmore => ?_
    rw [scan_number (hplain.of_append ha more) ha (spanNumber_of_sequel hspan ha hglue hmore), readNumber]
    dsimp only
    split
    · rename_i htrue
      obtain ⟨c, hc, hctrue⟩ := Option.map_eq_some_iff.mp htrue
      rw [hmore.head hglue gluesToNumber_of_endsToken c hc] at hctrue
      cases hctrue
    · rfl

/-- A word that is a name or an operator. -/
theorem word_takes {pos : Nat} {cs : List Char} {t : Token} {n : Nat} (hplain : Plain cs)
    (hnumber : (spanNumber cs).1 = []) (h : (name? cs).or (operator? cs) = some (t, n)) :
    ∃ part, Takes ⟨pos, cs⟩ t ⟨pos + width (cs.take n), cs.drop n⟩ part := by
  have taken {read : List Char → Option (Token × Nat)} (hword : TakesWord read cs t n) (hn : 0 < n)
      (hread : ∀ cs', read cs' = some (t, n) → (name? cs').or (operator? cs') = some (t, n)) :
      ∃ part, Takes ⟨pos, cs⟩ t ⟨pos + width (cs.take n), cs.drop n⟩ part := by
    obtain ⟨word, rest, rfl, rfl, hspace, hagain⟩ := hword
    have hne : word ≠ [] := List.length_pos_iff.mp hn
    rw [List.take_left, List.drop_left]
    refine ⟨word, .of_not_mem hne hspace (Place.over_append pos word rest) fun pos more hmore => ?_⟩
    have hnone : (spanNumber (word ++ more)).1 = [] := spanNumber_eq_nil_of_sequel hnumber hne hmore
    rw [scan_plain (hplain.of_append hne more), hnone, hread _ (hagain more hmore)]
    simp
  cases hname : name? cs with
  | some found =>
    rw [hname] at h
    obtain rfl : found = (t, n) := Option.some_inj.mp h
    refine taken (name?_takes hname) (name?_pos hname) fun cs' hread => ?_
    rw [hread]
    rfl
  | none =>
    rw [hname] at h
    refine taken (operator?_takes h) (operator?_pos h) fun cs' hread => ?_
    rw [name?_of_operator? hread, hread]
    rfl

theorem scan_takes {p after : Place} {t : Token} (h : scan p = .token t after) : ∃ part, Takes p t after part := by
  obtain ⟨pos, cs⟩ := p
  by_cases hdouble : cs.head? = some '"'
  · obtain ⟨body, rfl⟩ := List.head?_eq_some_iff.mp hdouble
    exact readText_takes (.inl rfl) h
  by_cases hsingle : cs.head? = some '\''
  · obtain ⟨body, rfl⟩ := List.head?_eq_some_iff.mp hsingle
    exact readText_takes (.inr rfl) h
  rw [scan_plain ⟨hdouble, hsingle⟩] at h
  split at h
  · rename_i hnumber
    split at h
    · rename_i t' n hword
      cases h
      exact word_takes ⟨hdouble, hsingle⟩ (List.isEmpty_iff.mp hnumber) hword
    · cases h
  · rename_i hnumber
    have happend := spanNumber_append cs
    generalize hspan : spanNumber cs = r at h hnumber happend
    obtain ⟨a, b⟩ := r
    obtain rfl : a ++ b = cs := happend
    exact ⟨a, readNumber_takes ⟨hdouble, hsingle⟩ (by simpa using hnumber) hspan h⟩

/-! ## Runs -/

theorem tokenize_eq_ok_iff {offset : Nat} {text : List Char} {ts : List (Spanned Token)} :
    tokenize offset text = .ok ts ↔ run ⟨offset, text⟩ = (ts, []) := by
  unfold tokenize
  rcases run ⟨offset, text⟩ with ⟨ts', _ | ⟨d, ds⟩⟩ <;> simp

/-- The first token of a text: spaces, the characters that it takes, and what comes behind. -/
structure First (p : Place) (t : Spanned Token) (ts : List (Spanned Token)) (spaces word : List Char) (after : Place) :
    Prop where
  blank : ∀ c ∈ spaces, isSpace c = true
  head : ∀ c ∈ word.head?, isSpace c = false
  rest : p.rest = spaces ++ (word ++ after.rest)
  start : t.span.start = p.pos + width spaces
  stop : t.span.stop = t.span.start + width word
  takes : Takes ⟨t.span.start, word ++ after.rest⟩ t.value after word
  behind : run after = (ts, [])

theorem exists_of_run_eq_cons {p : Place} {t : Spanned Token} {ts : List (Spanned Token)} (h : run p = (t :: ts, [])) :
    ∃ spaces word after, First p t ts spaces word after := by
  fun_induction run p with
  | case1 => cases h
  | case3 => cases h
  | case2 p pos c cs hskip t' after hs ts' faults hrun _ =>
    have hover := Place.over_skipWhile isSpace p
    have hhead : ∀ c ∈ (p.skipWhile isSpace).rest.head?, isSpace c = false := fun c hc => Text.head?_dropWhile c hc
    rw [hskip] at hover hhead
    obtain ⟨word, htakes⟩ := scan_takes hs
    have hrest : c :: cs = word ++ after.rest := htakes.covers.rest
    have hafter : after.pos = pos + width word := htakes.covers.pos
    have hstart : (Span.between pos after.pos).start = pos := Nat.min_eq_left (by omega)
    have hstop : (Span.between pos after.pos).stop = after.pos := Nat.max_eq_right (by omega)
    cases h
    refine ⟨p.rest.takeWhile isSpace, word, after, fun c hc => List.mem_takeWhile_imp hc, fun d hd => ?_, ?_, ?_,
      ?_, ?_, hrun⟩
    · refine hhead d ?_
      rw [hrest]
      exact Text.mem_head?_of_isPrefix (List.prefix_append word after.rest) d hd
    · rw [← hrest]
      exact hover.rest
    · rw [hstart]
      exact hover.pos
    · rw [hstop, hstart, hafter]
    · rw [hstart, ← hrest]
      exact htakes

theorem First.span {p after : Place} {t : Spanned Token} {ts : List (Spanned Token)} {spaces word : List Char}
    (h : First p t ts spaces word after) : Span.sized t.span.start (width word) = t.span := by
  have hstop := h.stop
  obtain ⟨value, start, stop, ordered⟩ := t
  simp only at hstop
  simp only [Span.sized, hstop]

/-- The characters of a first token, behind any spaces, begin with this token wherever they stand. -/
theorem First.again {p after : Place} {t : Spanned Token} {ts : List (Spanned Token)} {spaces word front more : List Char}
    (h : First p t ts spaces word after) (hmore : Sequel after.rest more) (hfront : ∀ c ∈ front, isSpace c = true)
    (pos : Nat) : run ⟨pos, front ++ (word ++ more)⟩ =
      (⟨t.value, .sized (pos + width front) (width word)⟩ :: (run ⟨pos + width front + width word, more⟩).1,
        (run ⟨pos + width front + width word, more⟩).2) := by
  have hne := h.takes.inked.ne_nil
  have hhead : ∀ c ∈ (word ++ more).head?, isSpace c = false := by
    intro c hc
    rw [List.head?_append_of_ne_nil _ hne] at hc
    exact h.head c hc
  have hskip : (⟨pos, front ++ (word ++ more)⟩ : Place).skipWhile isSpace = ⟨pos + width front, word ++ more⟩ := by
    obtain ⟨htake, hdrop⟩ := Text.takeWhile_dropWhile_append hfront hhead
    rw [Place.skipWhile, htake, hdrop]
  have hspan : Span.between (pos + width front) (pos + width front + width word) =
      .sized (pos + width front) (width word) := by
    simp only [Span.between, Span.sized, Span.mk.injEq]
    omega
  rw [run_of_token hskip (by simp [hne]) (h.takes.again _ more hmore), hspan]

/-- What stands at the place of a first token, in front of a part of what comes behind it. -/
theorem First.front {p after : Place} {t : Spanned Token} {ts middle : List (Spanned Token)}
    {spaces word more : List Char} (h : First p t ts spaces word after) (hmore : more <+: after.rest)
    (hrun : run ⟨after.pos, more⟩ = (middle, [])) (front : List Char) (hfront : ∀ c ∈ front, isSpace c = true) {pos : Nat}
    (hpos : t.span.start = pos + width front) : run ⟨pos, front ++ (word ++ more)⟩ = (t :: middle, []) := by
  have hafter : t.span.start + width word = after.pos := h.takes.covers.pos.symm
  rw [h.again (.of_isPrefix hmore) hfront pos, ← hpos, hafter, hrun, h.span]

/-- The first tokens of a text are those of the characters they take. -/
theorem run_front {t : Spanned Token} {middle behind : List (Spanned Token)} : ∀ {p : Place},
    run p = (t :: middle ++ behind, []) →
      ∃ spaces part rest, p.rest = spaces ++ (part ++ rest) ∧ Text.Inked part ∧ t.span.start = p.pos + width spaces ∧
        ((t :: middle).getLast (List.cons_ne_nil _ _)).span.stop = t.span.start + width part ∧
        run ⟨p.pos, spaces ++ part⟩ = (t :: middle, []) ∧ run ⟨t.span.start, part⟩ = (t :: middle, []) := by
  induction middle generalizing t with
  | nil =>
    intro p h
    obtain ⟨spaces, word, after, hfirst⟩ := exists_of_run_eq_cons h
    have hspaces := hfirst.front List.nil_prefix (run_nil _) spaces hfirst.blank hfirst.start
    have halone := hfirst.front List.nil_prefix (run_nil _) [] (fun _ hc => absurd hc List.not_mem_nil) rfl
    rw [List.append_nil] at hspaces halone
    exact ⟨spaces, word, after.rest, hfirst.rest, hfirst.takes.inked, hfirst.start, hfirst.stop, hspaces, halone⟩
  | cons t₂ middle ih =>
    intro p h
    obtain ⟨spaces, word, after, hfirst⟩ := exists_of_run_eq_cons h
    obtain ⟨gap, part, rest, hrest, hinked, hstart, hstop, hrun, -⟩ := ih hfirst.behind
    have hmore : gap ++ part <+: after.rest := ⟨rest, by rw [hrest, List.append_assoc]⟩
    have hafter : after.pos = t.span.start + width word := hfirst.takes.covers.pos
    refine ⟨spaces, word ++ (gap ++ part), rest, ?_, ?_, hfirst.start, ?_,
      hfirst.front hmore hrun spaces hfirst.blank hfirst.start,
      hfirst.front hmore hrun [] (fun _ hc => absurd hc List.not_mem_nil) rfl⟩
    · rw [hfirst.rest, hrest]
      simp only [List.append_assoc]
    · refine ⟨by simp [hinked.ne_nil], ?_, ?_⟩
      · rw [List.head?_append_of_ne_nil _ hfirst.takes.inked.ne_nil]
        exact hfirst.takes.inked.head
      · rw [← List.append_assoc, List.getLast?_append_of_ne_nil _ hinked.ne_nil]
        exact hinked.last
    · rw [List.getLast_cons (List.cons_ne_nil _ _), hstop, Text.width_append, Text.width_append]
      omega

/-- Tokens that stand next to each other are those of the part of the text that they take. -/
theorem run_part {t : Spanned Token} {before middle behind : List (Spanned Token)} : ∀ {p : Place},
    run p = (before ++ (t :: middle ++ behind), []) →
      ∃ front part rest, p.rest = front ++ (part ++ rest) ∧ Text.Inked part ∧ t.span.start = p.pos + width front ∧
        ((t :: middle).getLast (List.cons_ne_nil _ _)).span.stop = t.span.start + width part ∧
        run ⟨t.span.start, part⟩ = (t :: middle, []) := by
  induction before with
  | nil =>
    intro p h
    obtain ⟨spaces, part, rest, hrest, hinked, hstart, hstop, -, hrun⟩ := run_front h
    exact ⟨spaces, part, rest, hrest, hinked, hstart, hstop, hrun⟩
  | cons t₁ before ih =>
    intro p h
    obtain ⟨spaces, word, after, hfirst⟩ := exists_of_run_eq_cons h
    obtain ⟨front, part, rest, hrest, hinked, hstart, hstop, hrun⟩ := ih hfirst.behind
    have hafter : after.pos = t₁.span.start + width word := hfirst.takes.covers.pos
    refine ⟨spaces ++ word ++ front, part, rest, ?_, hinked, ?_, hstop, hrun⟩
    · rw [hfirst.rest, hrest]
      simp only [List.append_assoc]
    · rw [hstart, hafter, hfirst.start, Text.width_append, Text.width_append]
      omega

/-! ## The order and the place of tokens -/

/-- A text without tokens or faults is blank. -/
theorem blank_of_run_eq_nil {p : Place} (h : run p = ([], [])) : ∀ c ∈ p.rest, isSpace c = true := by
  rw [run.eq_def] at h
  split at h
  · rename_i pos hskip
    have hdrop : p.rest.dropWhile isSpace = [] := congrArg Place.rest hskip
    exact fun c hc => List.dropWhile_eq_nil_iff.mp hdrop c hc
  · split at h
    · cases (Prod.mk.inj h).1
    · cases (Prod.mk.inj h).2

theorem run_of_skip_nil {p : Place} {pos : Nat} (h : p.skipWhile isSpace = ⟨pos, []⟩) : run p = ([], []) := by
  rw [run.eq_def]
  split
  · rfl
  · rename_i hcons
    rw [h] at hcons
    cases hcons

/-- A text that begins with a fault, behind spaces or not. -/
theorem run_of_fault {p after : Place} {pos : Nat} {c : Char} {cs : List Char} {d : Diagnostic}
    (h : p.skipWhile isSpace = ⟨pos, c :: cs⟩) (hs : scan ⟨pos, c :: cs⟩ = .fault d after) :
    run p = ((run after.skip).1, d :: (run after.skip).2) := by
  rw [run.eq_def]
  split
  · rename_i hnil
    rw [h] at hnil
    cases hnil
  · rename_i hcons
    rw [h] at hcons
    cases hcons
    split
    · rename_i hs'
      rw [hs] at hs'
      cases hs'
    · rename_i hs'
      rw [hs] at hs'
      cases hs'
      rfl

theorem run_of_blank {cs : List Char} (h : ∀ c ∈ cs, isSpace c = true) (pos : Nat) : run ⟨pos, cs⟩ = ([], []) := by
  have hskip : (⟨pos, cs⟩ : Place).skipWhile isSpace = ⟨pos + width cs, []⟩ := by
    rw [Place.skipWhile, List.dropWhile_eq_nil_iff.mpr h, List.takeWhile_eq_self_iff.mpr h]
  exact run_of_skip_nil hskip

theorem run_congr {p q : Place} (h : p.skipWhile isSpace = q.skipWhile isSpace) : run p = run q := by
  generalize hq : q.skipWhile isSpace = r at h
  obtain ⟨pos, cs⟩ := r
  cases cs with
  | nil => rw [run_of_skip_nil h, run_of_skip_nil hq]
  | cons c cs =>
    cases hs : scan ⟨pos, c :: cs⟩ with
    | token t after => rw [run_of_token h (List.cons_ne_nil c cs) hs, run_of_token hq (List.cons_ne_nil c cs) hs]
    | fault d after => rw [run_of_fault h hs, run_of_fault hq hs]

theorem run_blank_append {blank : List Char} (h : ∀ c ∈ blank, isSpace c = true) (pos : Nat) (more : List Char) :
    run ⟨pos, blank ++ more⟩ = run ⟨pos + width blank, more⟩ := by
  refine run_congr ?_
  simp only [Place.skipWhile, List.takeWhile_append_of_pos h, List.dropWhile_append_of_pos h, Text.width_append,
    Nat.add_assoc]

/-- Something that ends every token behind a text adds its own tokens to those of the text. -/
theorem run_append {ts : List (Spanned Token)} (more : List Char) (hmore : ∀ c ∈ more.head?, endsToken c = true) :
    ∀ {p : Place}, run p = (ts, []) → run ⟨p.pos, p.rest ++ more⟩ =
      (ts ++ (run ⟨p.stop, more⟩).1, (run ⟨p.stop, more⟩).2) := by
  induction ts with
  | nil => exact fun h => run_blank_append (blank_of_run_eq_nil h) _ more
  | cons t ts ih =>
    intro p h
    obtain ⟨spaces, word, after, hfirst⟩ := exists_of_run_eq_cons h
    have hafter : t.span.start + width word = after.pos := hfirst.takes.covers.pos.symm
    have hstop : p.stop = after.stop := by
      have hstart := hfirst.start
      simp only [Place.stop, hfirst.rest, Text.width_append]
      omega
    rw [hfirst.rest, List.append_assoc, List.append_assoc, hfirst.again (.append_right hmore) hfirst.blank,
      ← hfirst.start, hafter, ih hfirst.behind, hfirst.span, hstop]
    rfl

/-- Every token ends before the next one begins. -/
def InOrder (ts : List (Spanned Token)) : Prop :=
  ts.Pairwise fun a b => a.span.stop ≤ b.span.start

theorem inOrder_of_run {ts : List (Spanned Token)} : ∀ {p : Place}, run p = (ts, []) → InOrder ts := by
  induction ts with
  | nil => exact fun _ => .nil
  | cons t ts ih =>
    intro p h
    obtain ⟨spaces, word, after, hfirst⟩ := exists_of_run_eq_cons h
    refine .cons (fun b hb => ?_) (ih hfirst.behind)
    have hwithin := (run_within after).1 b (by rw [hfirst.behind]; exact hb)
    have hafter : after.pos = t.span.start + width word := hfirst.takes.covers.pos
    rw [hfirst.stop, ← hafter]
    exact hwithin.1

/-- The tokens of a text are the same wherever it stands, at their places in it. -/
theorem exists_of_run_eq {ts : List (Spanned Token)} : ∀ {p : Place}, run p = (ts, []) →
    ∃ placed : List (Spanned Token), ts = placed.map (Spanned.shift p.pos) ∧
      ∀ pos, run ⟨pos, p.rest⟩ = (placed.map (Spanned.shift pos), []) := by
  induction ts with
  | nil => exact fun h => ⟨[], rfl, run_of_blank (blank_of_run_eq_nil h)⟩
  | cons t ts ih =>
    intro p h
    obtain ⟨spaces, word, after, hfirst⟩ := exists_of_run_eq_cons h
    obtain ⟨placed, rfl, hbehind⟩ := ih hfirst.behind
    have hagain (pos : Nat) : run ⟨pos, p.rest⟩ =
        ((⟨t.value, .sized (width spaces) (width word)⟩ ::
          placed.map (Spanned.shift (width spaces + width word))).map (Spanned.shift pos), []) := by
      rw [hfirst.rest, hfirst.again (.of_isPrefix (List.prefix_refl _)) hfirst.blank pos, hbehind]
      simp [Spanned.shift, Span.shift, Span.sized, Nat.add_assoc, Nat.add_comm, Nat.add_left_comm, Function.comp_def]
    refine ⟨_, ?_, hagain⟩
    have hp := hagain p.pos
    rw [show (⟨p.pos, p.rest⟩ : Place) = p from rfl, h] at hp
    exact congrArg Prod.fst hp

end Lexer

end Sketchwork
