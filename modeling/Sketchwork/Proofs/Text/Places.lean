/-
  Sketchwork.Proofs.Text.Places — a text that is read ends where it ended.

  A reader moves on and leaves the end of the text where it was (`Place.Reaches`); what it
  reports lies between its place and this end.

  Proved: this is so for texts between quotes, under both rules of quoting, and what a quoted
  text stands for is no wider than what is written (`escaped_within`, `doubled_within`).
-/
import Sketchwork.Span
import Sketchwork.Text.Quoted

namespace Sketchwork

open Text (width)

/-! ## Widths -/

namespace Text

theorem width_le_of_isPrefix {a b : List Char} (h : a <+: b) : width a ≤ width b := by
  obtain ⟨r, rfl⟩ := h
  rw [width_append]
  exact Nat.le_add_right ..

theorem width_le_of_isSuffix {a b : List Char} (h : a <:+ b) : width a ≤ width b := by
  obtain ⟨r, rfl⟩ := h
  rw [width_append]
  exact Nat.le_add_left ..

theorem width_pos {cs : List Char} (h : cs ≠ []) : 0 < width cs := by
  obtain ⟨c, cs, rfl⟩ := List.exists_cons_of_ne_nil h
  have hc := c.utf8Size_pos
  rw [width_cons]
  omega

theorem width_of_oneByte {cs : List Char} (h : ∀ c ∈ cs, c.utf8Size = 1) : width cs = cs.length := by
  induction cs with
  | nil => rfl
  | cons c cs ih =>
    obtain ⟨hc, hcs⟩ := List.forall_mem_cons.mp h
    rw [width_cons, hc, ih hcs, List.length_cons, Nat.add_comm]

theorem width_replicate_space (n : Nat) : width (List.replicate n ' ') = n := by
  have hspaces : ∀ c ∈ List.replicate n ' ', c.utf8Size = 1 := by
    intro c hc
    rw [List.eq_of_mem_replicate hc]
    rfl
  rw [width_of_oneByte hspaces, List.length_replicate]

end Text

/-! ## Ranges and places -/

/-- The range lies between two offsets. -/
structure Span.Within (lo hi : Nat) (s : Span) : Prop where
  start : lo ≤ s.start
  stop : s.stop ≤ hi

namespace Span.Within

variable {lo hi lo' hi' : Nat} {s t : Span}

theorem mono (h : s.Within lo hi) (hlo : lo' ≤ lo) (hhi : hi ≤ hi') : s.Within lo' hi' :=
  ⟨Nat.le_trans hlo h.start, Nat.le_trans h.stop hhi⟩

theorem between {a b : Nat} (ha : lo ≤ a) (hab : a ≤ b) (hb : b ≤ hi) : (Span.between a b).Within lo hi := by
  refine ⟨?_, ?_⟩ <;> simp only [Span.between] <;> omega

theorem sized {a n : Nat} (ha : lo ≤ a) (hb : a + n ≤ hi) : (Span.sized a n).Within lo hi :=
  ⟨ha, hb⟩

end Span.Within

/-- From one place reading has come to another of the same text. -/
structure Place.Reaches (p q : Place) : Prop where
  pos : p.pos ≤ q.pos
  stop : q.stop = p.stop

namespace Place

theorem pos_le_stop (p : Place) : p.pos ≤ p.stop :=
  Nat.le_add_right ..

namespace Reaches

variable {p q r : Place}

theorem refl (p : Place) : p.Reaches p :=
  ⟨Nat.le_refl _, rfl⟩

theorem trans (h : p.Reaches q) (h' : q.Reaches r) : p.Reaches r :=
  ⟨Nat.le_trans h.pos h'.pos, h'.stop.trans h.stop⟩

theorem le_stop (h : p.Reaches q) : q.pos ≤ p.stop :=
  h.stop ▸ q.pos_le_stop

/-- What lies behind a place that was reached lies behind the place before. -/
theorem within {s : Span} (h : p.Reaches q) (hs : s.Within q.pos q.stop) : s.Within p.pos p.stop :=
  hs.mono h.pos (Nat.le_of_eq h.stop)

/-- The range that has been read. -/
theorem between (h : p.Reaches q) : (Span.between p.pos q.pos).Within p.pos p.stop :=
  .between (Nat.le_refl _) h.pos h.le_stop

end Reaches

theorem reaches_cons (pos : Nat) (c : Char) (cs : List Char) : Reaches ⟨pos, c :: cs⟩ ⟨pos + c.utf8Size, cs⟩ :=
  ⟨Nat.le_add_right .., Nat.add_assoc ..⟩

theorem reaches_append (pos : Nat) (a b : List Char) : Reaches ⟨pos, a ++ b⟩ ⟨pos + width a, b⟩ := by
  refine ⟨Nat.le_add_right .., ?_⟩
  simp only [stop, Text.width_append, Nat.add_assoc]

theorem reaches_skip (p : Place) : p.Reaches p.skip := by
  obtain ⟨pos, cs⟩ := p
  cases cs with
  | nil => exact .refl _
  | cons c cs => exact reaches_cons pos c cs

theorem reaches_skipWhile (f : Char → Bool) (p : Place) : p.Reaches (p.skipWhile f) := by
  have h := reaches_append p.pos (p.rest.takeWhile f) (p.rest.dropWhile f)
  rw [List.takeWhile_append_dropWhile] at h
  exact h

end Place

/-! ## Texts between quotes -/

namespace Quoted

/-- What a scan that began at `lo` found lies before `hi`, where the text ends, and the content
    takes no more room than what is written for it and the quote that closes it. -/
def Scan.Within (lo hi : Nat) : Scan → Prop
  | closed content after => lo + width content + 1 ≤ after.pos ∧ after.stop = hi
  | badEscape pos after => lo ≤ pos ∧ pos + 1 ≤ after.pos ∧ after.stop = hi
  | unclosed stop => lo ≤ stop ∧ stop = hi

/-- A character of the content that was written with at least its own width. -/
theorem Scan.Within.cons {lo hi n : Nat} {c : Char} {scan : Scan} (hc : c.utf8Size ≤ n) (h : scan.Within (lo + n) hi) :
    (scan.cons c).Within lo hi := by
  cases scan with
  | closed content after =>
    have hpos := h.1
    refine ⟨?_, h.2⟩
    rw [Text.width_cons]
    omega
  | badEscape pos after =>
    have hpos := h.1
    exact ⟨by omega, h.2⟩
  | unclosed stop =>
    have hpos := h.1
    exact ⟨by omega, h.2⟩

variable {table : Char → Option Char} {quote : Char}

theorem escaped_within (htable : ∀ c x, table c = some x → x.utf8Size = 1) (hquote : quote.utf8Size = 1) (pos : Nat)
    (cs : List Char) : (escaped table quote pos cs).Within pos (pos + width cs) := by
  have hbackslash : '\\'.utf8Size = 1 := rfl
  fun_induction escaped table quote pos cs with
  | case1 pos => exact ⟨Nat.le_refl _, rfl⟩
  | case2 pos => simp [Scan.Within, Place.stop, hbackslash]
  | case3 pos e cs x hx ih =>
    have hx' := htable e x hx
    refine Scan.Within.cons (n := 1 + e.utf8Size) (by omega) ?_
    simpa [hbackslash, Nat.add_assoc] using ih
  | case4 pos e cs _ => simp [Scan.Within, Place.stop, hbackslash, Nat.add_assoc]
  | case5 pos cs _ => simp [Scan.Within, Place.stop, hquote, Nat.add_assoc]
  | case6 pos c cs _ _ ih =>
    refine Scan.Within.cons (Nat.le_refl _) ?_
    simpa [Nat.add_assoc] using ih

theorem doubled_within (hquote : quote.utf8Size = 1) (pos : Nat) (cs : List Char) :
    (doubled quote pos cs).Within pos (pos + width cs) := by
  fun_induction doubled quote pos cs with
  | case1 pos => exact ⟨Nat.le_refl _, rfl⟩
  | case2 pos => simp [Scan.Within, Place.stop, hquote]
  | case3 pos cs ih =>
    refine Scan.Within.cons (n := 2) (by omega) ?_
    have hwidth : width (quote :: quote :: cs) = 2 + width cs := by
      simp only [Text.width_cons, hquote]
      omega
    rw [hwidth, ← Nat.add_assoc]
    exact ih
  | case4 pos d cs _ => simp [Scan.Within, Place.stop, hquote, Nat.add_assoc]
  | case5 pos c cs _ ih =>
    refine Scan.Within.cons (Nat.le_refl _) ?_
    simpa [Nat.add_assoc] using ih

theorem utf8Size_of_unescape? {c x : Char} (h : unescape? c = some x) : x.utf8Size = 1 := by
  unfold unescape? at h
  split at h
  · cases h; rfl
  split at h
  · cases h; rfl
  split at h
  · cases h; rfl
  split at h
  · cases h; rfl
  split at h
  · rename_i hc
    cases h
    simp only [Bool.or_eq_true, decide_eq_true_eq] at hc
    rcases hc with (rfl | rfl) | rfl <;> rfl
  · cases h

end Quoted

end Sketchwork
