/-
  Sketchwork.Proofs.Outline.Lines — the lines of a text that has idle lines and trailers.

  A text is cut behind its line breaks, and every piece loses its ending, its indentation, its
  comment and the blanks before that. What is left of an idle line is nothing, and of any
  other line its content.

  Proved: the lines read from a text are the ones that it spells, and no tab is reported
  (`ofDocument_of_rows`).
-/
import Sketchwork.Proofs.Outline.Contents

namespace Sketchwork.Layout

open Text (isBlank)

def ofLine (l : Line) : Content :=
  ⟨l.indent, l.text⟩

/-- The characters of line endings. -/
def isBreak (c : Char) : Bool :=
  c == '\n' || c == '\r'

/-! ## Ends of lines -/

theorem isBreak_eq_false {c : Char} (h : isBlank c = false) : isBreak c = false := by
  rw [Bool.eq_false_iff]
  intro hbreak
  simp only [isBreak, Bool.or_eq_true, beq_iff_eq] at hbreak
  rcases hbreak with rfl | rfl <;> cases h

theorem dropEndWhile_ending {e : List Char} (he : Ending e) (s : List Char) :
    Text.dropEndWhile isBreak (s ++ e) = Text.dropEndWhile isBreak s := by
  cases he <;> simp [Text.dropEndWhile, isBreak]

theorem not_mem_dropEndWhile {p : Char → Bool} {s : List Char} {c : Char} (h : c ∉ s) :
    c ∉ Text.dropEndWhile p s :=
  fun hc => h ((List.rdropWhile_prefix p s).subset hc)

theorem newline_not_mem_spaces (n : Nat) : '\n' ∉ spaces n :=
  fun h => by cases List.eq_of_mem_replicate h

theorem dropEndWhile_spaces (n : Nat) : Text.dropEndWhile isBreak (spaces n) = spaces n := by
  have hlast : ∀ c ∈ (spaces n).getLast?, isBreak c = false := by
    intro c hc
    rw [List.eq_of_mem_replicate (List.mem_of_getLast? hc)]
    rfl
  simpa [Text.dropEndWhile] using dropEndWhile_append hlast []

theorem dropEndWhile_comment (n : Nat) (remark : List Char) :
    Text.dropEndWhile isBreak (spaces n ++ '#' :: remark) = spaces n ++ '#' :: Text.dropEndWhile isBreak remark := by
  have hlast : ∀ c ∈ (spaces n ++ ['#']).getLast?, isBreak c = false := by
    rw [List.getLast?_concat]
    rintro _ ⟨⟩
    rfl
  rw [List.append_cons, dropEndWhile_append hlast, ← List.append_cons]

namespace Trailer

variable {s : List Char} (hs : Trailer s)
include hs

/-- A trailer without the ending of its line is a trailer. -/
theorem dropEnd : Trailer (Text.dropEndWhile isBreak s) := by
  cases hs with
  | blank n => rw [dropEndWhile_spaces]; exact .blank n
  | comment n h => rw [dropEndWhile_comment]; exact .comment n (not_mem_dropEndWhile h)

theorem newline : '\n' ∉ s := by
  cases hs with
  | blank n => exact newline_not_mem_spaces n
  | comment n h => simp [newline_not_mem_spaces, h]

/-- Nothing but spaces is left of a trailer without its comment. -/
theorem withoutComment (p : Char) : ∃ n, Line.withoutComment none p s = spaces n := by
  cases hs with
  | blank n =>
    obtain ⟨q, hq⟩ := Runs.anySpaces n p
    refine ⟨n, ?_⟩
    have h := hq.keeps []
    rwa [List.append_nil, Line.withoutComment, List.append_nil] at h
  | comment n h =>
    refine ⟨n + 1, ?_⟩
    rw [(Runs.spaces_succ n p).keeps, Line.withoutComment]
    exact List.append_nil _

end Trailer

namespace Idle

variable {s : List Char} (hs : Idle s)
include hs

theorem dropEnd : Idle (Text.dropEndWhile isBreak s) := by
  cases hs with
  | blank n => rw [dropEndWhile_spaces]; exact .blank n
  | comment n h => rw [dropEndWhile_comment]; exact .comment n (not_mem_dropEndWhile h)

theorem newline : '\n' ∉ s := by
  cases hs with
  | blank n => exact newline_not_mem_spaces n
  | comment n h => simp [newline_not_mem_spaces, h]

end Idle

/-! ## Single lines -/

theorem isIndentation_of_mem_spaces {n : Nat} {c : Char} (h : c ∈ spaces n) : Line.isIndentation c = true := by
  rw [List.eq_of_mem_replicate h]
  rfl

theorem isIndentation_of_solid {t : List Char} (ht : Solid t) : ∀ c ∈ t.head?, Line.isIndentation c = false := by
  intro c hc
  rw [Bool.eq_false_iff]
  intro h
  simp only [Line.isIndentation, Bool.or_eq_true, beq_iff_eq] at h
  rcases h with rfl | rfl <;> cases ht _ hc

/-- What a piece without its ending is read as: behind its indentation comes no blank. -/
theorem ofText_of_dropEnd {offset i : Nat} {raw t : List Char} (ht : Solid t)
    (h : Text.dropEndWhile isBreak raw = spaces i ++ t) :
    Line.ofText offset raw =
      (let content := Text.trimEnd (Line.withoutComment none ' ' t)
        if content.isEmpty || Line.isMarker content then none else some ⟨i, content, offset + i⟩, none) := by
  obtain ⟨htake, hdrop⟩ := Text.takeWhile_dropWhile_append (f := Line.isIndentation) (a := spaces i)
    (fun _ hc => isIndentation_of_mem_spaces hc) (isIndentation_of_solid ht)
  have htab : (spaces i).findIdx? (· == '\t') = none := by
    rw [List.findIdx?_eq_none_iff]
    intro c hc
    rw [List.eq_of_mem_replicate hc]
    rfl
  have hraw : Text.dropEndWhile (fun c => c == '\n' || c == '\r') raw = spaces i ++ t := h
  simp only [Line.ofText, hraw, htake, hdrop, htab, length_spaces]
  rfl

theorem ofText_line {offset : Nat} {l : Content} {s raw : List Char} (hl : IsRow l.text) (hs : Trailer s)
    (h : Text.dropEndWhile isBreak raw = Text.dropEndWhile isBreak (spaces l.indent ++ (l.text ++ s))) :
    Line.ofText offset raw = (some ⟨l.indent, l.text, offset + l.indent⟩, none) := by
  obtain ⟨i, t⟩ := l
  obtain ⟨c, cs, hc, hb⟩ := hl.cons
  dsimp only at *
  have hne : t ≠ [] := by rw [hc]; nofun
  have hlast : ∀ c ∈ (spaces i ++ t).getLast?, isBreak c = false := by
    rw [List.getLast?_append_of_ne_nil _ hne]
    exact fun c hc => isBreak_eq_false (hl.last c hc)
  rw [← List.append_assoc, dropEndWhile_append hlast, List.append_assoc] at h
  obtain ⟨q, hq⟩ := hl.runs
  obtain ⟨n, hn⟩ := hs.dropEnd.withoutComment q
  have htrim : Text.trimEnd (t ++ spaces n) = t := trimEnd_append (fun c hc => isBlank_of_mem_spaces hc) hl.last
  have hsolid : Solid t := by rw [hc]; exact .cons hb
  rw [ofText_of_dropEnd (hsolid.append hne _) h]
  dsimp only
  rw [hq.keeps, hn, htrim, hl.marker]
  simp [hne]

theorem ofText_idle {offset : Nat} {s raw : List Char} (hs : Idle s)
    (h : Text.dropEndWhile isBreak raw = Text.dropEndWhile isBreak s) : Line.ofText offset raw = (none, none) := by
  have hidle := hs.dropEnd
  rw [← h] at hidle
  generalize ht : Text.dropEndWhile isBreak raw = t at hidle
  cases hidle with
  | blank n =>
    rw [ofText_of_dropEnd (t := []) nofun (by rw [ht, List.append_nil])]
    rfl
  | @comment n remark _ =>
    rw [ofText_of_dropEnd (.cons rfl) ht, Line.withoutComment]
    rfl

/-! ## Whole texts -/

theorem pieces_append_newline {s : List Char} (h : '\n' ∉ s) (r : List Char) :
    Line.pieces (s ++ '\n' :: r) = (s ++ ['\n']) :: Line.pieces r := by
  induction s with
  | nil => simp [Line.pieces]
  | cons c s ih =>
    have hc : c ≠ '\n' := fun e => h (e ▸ List.mem_cons_self)
    rw [List.cons_append, Line.pieces, ih fun hs => h (List.mem_cons_of_mem _ hs)]
    simp [hc]

theorem pieces_append_ending {s e : List Char} (h : '\n' ∉ s) (he : Ending e) (r : List Char) :
    Line.pieces (s ++ (e ++ r)) = (s ++ e) :: Line.pieces r := by
  cases he with
  | lf => exact pieces_append_newline h r
  | crlf =>
    have h' : '\n' ∉ s ++ ['\r'] := by simp [h]
    simpa using pieces_append_newline h' r

theorem pieces_of_not_mem {s : List Char} (h : '\n' ∉ s) (hne : s ≠ []) : Line.pieces s = [s] := by
  induction s with
  | nil => exact absurd rfl hne
  | cons c s ih =>
    have hc : c ≠ '\n' := fun e => h (e ▸ List.mem_cons_self)
    cases s with
    | nil => simp [Line.pieces, hc]
    | cons d s =>
      rw [Line.pieces, ih (fun hs => h (List.mem_cons_of_mem _ hs)) nofun]
      simp [hc]

theorem newline_not_mem_line {l : Content} {s : List Char} (hl : IsRow l.text) (hs : Trailer s) :
    '\n' ∉ spaces l.indent ++ (l.text ++ s) := by
  obtain ⟨q, hq⟩ := hl.runs
  simp [newline_not_mem_spaces, hq.newline, hs.newline]

theorem ofPieces_of_spells {ls : List Content} {text : List Char} (h : Spells ls text)
    (hls : ∀ l ∈ ls, IsRow l.text) (offset : Nat) :
    ∃ lines, Line.ofPieces offset (Line.pieces text) = (lines, []) ∧ lines.map ofLine = ls := by
  induction h generalizing offset with
  | @idleEnd s hs =>
    by_cases hne : s = []
    · subst hne
      exact ⟨[], rfl, rfl⟩
    · rw [pieces_of_not_mem hs.newline hne]
      exact ⟨[], by simp [Line.ofPieces, ofText_idle hs rfl], rfl⟩
  | @lineEnd l s hs =>
    have hl := hls l List.mem_cons_self
    obtain ⟨c, cs, hc, -⟩ := hl.cons
    rw [pieces_of_not_mem (newline_not_mem_line hl hs) (by simp [hc])]
    exact ⟨[⟨l.indent, l.text, offset + l.indent⟩], by simp [Line.ofPieces, ofText_line hl hs rfl], rfl⟩
  | @idle ls s e r hs he _ ih =>
    obtain ⟨lines, hlines, hmap⟩ := ih hls (offset + Text.width (s ++ e))
    refine ⟨lines, ?_, hmap⟩
    rw [pieces_append_ending hs.newline he]
    simp [Line.ofPieces, ofText_idle hs (dropEndWhile_ending he s), hlines]
  | @line l ls s e r hs he _ ih =>
    have hl := hls l List.mem_cons_self
    obtain ⟨lines, hlines, hmap⟩ := ih (fun l hl => hls l (List.mem_cons_of_mem _ hl))
      (offset + Text.width (spaces l.indent ++ (l.text ++ s) ++ e))
    refine ⟨⟨l.indent, l.text, offset + l.indent⟩ :: lines, ?_, by simp [hmap, ofLine]⟩
    rw [show spaces l.indent ++ (l.text ++ (s ++ (e ++ r))) = (spaces l.indent ++ (l.text ++ s)) ++ (e ++ r) by simp,
      pieces_append_ending (newline_not_mem_line hl hs) he]
    rw [Line.ofPieces, ofText_line hl hs (dropEndWhile_ending he _)]
    simp only [hlines]
    rfl

/-- The lines with content are the ones that a text spells. -/
theorem ofDocument_of_rows {ls : List Content} {text : List Char} (h : Spells ls text)
    (hls : ∀ l ∈ ls, IsRow l.text) : ∃ lines, Line.ofDocument text = (lines, []) ∧ lines.map ofLine = ls :=
  ofPieces_of_spells h hls 0

end Sketchwork.Layout
