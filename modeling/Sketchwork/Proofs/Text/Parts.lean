/-
  Sketchwork.Proofs.Text.Parts — parts of a text, and the texts that stand for them.

  A reader that comes from one place to another has read the characters between them
  (`Place.Over`), and a range of a text has characters that stand there (`Place.Shows`). A text
  between quotes ends at its quote: what it is does not depend on what comes behind
  (`escaped_over`, `doubled_over`), and as far as nothing in it is escaped it is what is written
  (`escaped_front`, `doubled_front`).

  When a text goes on over several lines the gaps between them are filled with spaces
  (`Filled`). A part that neither begins nor ends with a space stands for a part of the text, of
  the same width, and where no line break is in it for itself (`Filled.part`).
-/
import Mathlib.Data.List.Basic
import Mathlib.Data.List.TakeWhile
import Sketchwork.Proofs.Text.Places

namespace Sketchwork

open Text (width)

/-! ## Fronts -/

namespace Text

/-- What begins a front of a text begins the text. -/
theorem mem_head?_of_isPrefix {α : Type} {more cs : List α} (h : more <+: cs) : ∀ c ∈ more.head?, c ∈ cs.head? := by
  intro c hc
  obtain ⟨rest, rfl⟩ := h
  cases more with
  | nil => cases hc
  | cons d more => exact hc

theorem head?_dropWhile {f : Char → Bool} {cs : List Char} : ∀ c ∈ (cs.dropWhile f).head?, f c = false := by
  intro c hc
  have hne : cs.dropWhile f ≠ [] := by
    rintro hnil
    rw [hnil] at hc
    cases hc
  have hhead := List.head_dropWhile_not f hne
  rwa [Option.some_inj.mp ((List.head?_eq_some_head hne).symm.trans hc)] at hhead

end Text

/-! ## Parts -/

/-- At a range of the text of a place stands `part`. -/
def Place.Shows (p : Place) (s : Span) (part : List Char) : Prop :=
  ∃ before behind, p.rest = before ++ (part ++ behind) ∧ s.start = p.pos + width before ∧ s.stop = s.start + width part

/-- A character of the text of a place begins between two offsets. -/
def Place.Has (p : Place) (c : Char) (lo hi : Nat) : Prop :=
  ∃ before behind, p.rest = before ++ c :: behind ∧ lo ≤ p.pos + width before ∧ p.pos + width before < hi

/-- From one place reading has come to another over `part`. -/
structure Place.Over (p : Place) (part : List Char) (q : Place) : Prop where
  rest : p.rest = part ++ q.rest
  pos : q.pos = p.pos + width part

/-- Reading has come from one place to another. -/
def Place.Leads (p q : Place) : Prop :=
  ∃ part, p.Over part q

/-- A text with something in it that neither begins nor ends with a space. -/
structure Text.Inked (cs : List Char) : Prop where
  ne_nil : cs ≠ []
  head : cs.head? ≠ some ' '
  last : cs.getLast? ≠ some ' '

namespace Place

variable {p q r : Place} {a b : List Char}

theorem Over.refl (p : Place) : p.Over [] p :=
  ⟨rfl, rfl⟩

theorem Over.trans (h : p.Over a q) (h' : q.Over b r) : p.Over (a ++ b) r := by
  refine ⟨?_, ?_⟩
  · rw [h.rest, h'.rest, List.append_assoc]
  · rw [h'.pos, h.pos, Text.width_append, Nat.add_assoc]

theorem Over.cons {pos n : Nat} {c : Char} {cs : List Char} (hc : c.utf8Size = n) (h : Over ⟨pos + n, cs⟩ a q) :
    Over ⟨pos, c :: cs⟩ (c :: a) q := by
  refine ⟨?_, ?_⟩
  · rw [List.cons_append, ← h.rest]
  · rw [h.pos, Text.width_cons, hc, Nat.add_assoc]

theorem over_append (pos : Nat) (a b : List Char) : Over ⟨pos, a ++ b⟩ a ⟨pos + width a, b⟩ :=
  ⟨rfl, rfl⟩

theorem over_skipWhile (f : Char → Bool) (p : Place) : p.Over (p.rest.takeWhile f) (p.skipWhile f) :=
  ⟨(List.takeWhile_append_dropWhile).symm, rfl⟩

theorem Leads.refl (p : Place) : p.Leads p :=
  ⟨[], .refl p⟩

theorem leads_skipSpaces (p : Place) : p.Leads p.skipSpaces :=
  ⟨_, over_skipWhile _ p⟩

theorem leads_cons {pos : Nat} {c : Char} (hc : c.utf8Size = 1) (cs : List Char) :
    Leads ⟨pos, c :: cs⟩ ⟨pos + 1, cs⟩ :=
  ⟨[c], .cons hc (.refl _)⟩

theorem Leads.trans (h : p.Leads q) (h' : q.Leads r) : p.Leads r := by
  obtain ⟨a, h⟩ := h
  obtain ⟨b, h'⟩ := h'
  exact ⟨a ++ b, h.trans h'⟩

/-- What stands at a range behind a place stands there in the whole text too. -/
theorem Over.shows {s : Span} {part : List Char} (h : p.Over a q) (hs : q.Shows s part) : p.Shows s part := by
  obtain ⟨before, behind, hrest, hstart, hstop⟩ := hs
  refine ⟨a ++ before, behind, ?_, ?_, hstop⟩
  · rw [h.rest, hrest, List.append_assoc]
  · rw [hstart, h.pos, Text.width_append, Nat.add_assoc]

theorem Shows.has {s : Span} {part : List Char} {c : Char} {lo hi : Nat} (h : p.Shows s part)
    (hhas : Has ⟨s.start, part⟩ c lo hi) : p.Has c lo hi := by
  obtain ⟨before, behind, hrest, hstart, -⟩ := h
  obtain ⟨front, back, hpart, hlo, hhi⟩ := hhas
  have hpos : p.pos + width (before ++ front) = s.start + width front := by
    rw [Text.width_append, hstart, Nat.add_assoc]
  refine ⟨before ++ front, back ++ behind, ?_, by rwa [hpos], by rwa [hpos]⟩
  rw [hrest, show part = front ++ c :: back from hpart]
  simp only [List.append_assoc, List.cons_append]

/-- What stands at a range in a part stands there in the whole text. -/
theorem Shows.trans {s t : Span} {part inner : List Char} (h : p.Shows s part)
    (h' : Shows ⟨s.start, part⟩ t inner) : p.Shows t inner := by
  obtain ⟨before, behind, hrest, hstart, -⟩ := h
  obtain ⟨front, back, hpart, hfront, hstop⟩ := h'
  refine ⟨before ++ front, back ++ behind, ?_, ?_, hstop⟩
  · rw [hrest, show part = front ++ (inner ++ back) from hpart]
    simp only [List.append_assoc]
  · rw [hfront, hstart, Text.width_append, Nat.add_assoc]

theorem skipSpaces_head (p : Place) : p.skipSpaces.rest.head? ≠ some ' ' := by
  intro h
  have hspace := Text.head?_dropWhile _ h
  exact absurd hspace (by simp)

end Place

/-! ## Texts between quotes -/

namespace Quoted

variable {table : Char → Option Char} {quote : Char} {pos : Nat} {cs content front more : List Char} {after : Place}

theorem exists_of_cons_eq_closed {c : Char} {scan : Scan} (h : scan.cons c = .closed content after) :
    ∃ rest, scan = .closed rest after ∧ content = c :: rest := by
  cases scan with
  | closed rest after' =>
    cases h
    exact ⟨rest, rfl, rfl⟩
  | badEscape => cases h
  | unclosed => cases h

theorem inked (hspace : quote ≠ ' ') (cs : List Char) : Text.Inked (quote :: (cs ++ [quote])) := by
  refine ⟨List.cons_ne_nil _ _, by simpa using hspace, ?_⟩
  rw [← List.cons_append, List.getLast?_concat]
  simpa using hspace

/-- A text with escapes ends at its quote, wherever it stands and whatever comes behind. -/
theorem escaped_anywhere (hquote : quote.utf8Size = 1) (h : escaped table quote pos cs = .closed content after) :
    ∃ body, Place.Over ⟨pos, cs⟩ (body ++ [quote]) after ∧ ∀ pos more,
      escaped table quote pos (body ++ quote :: more) = .closed content ⟨pos + width (body ++ [quote]), more⟩ := by
  have hslash : '\\'.utf8Size = 1 := rfl
  fun_induction escaped table quote pos cs generalizing content with
  | case1 | case2 | case4 => cases h
  | case3 pos e cs x hx ih =>
    obtain ⟨rest, hscan, rfl⟩ := exists_of_cons_eq_closed h
    obtain ⟨body, hover, halone⟩ := ih hscan
    refine ⟨'\\' :: e :: body, .cons rfl (.cons rfl hover), fun pos more => ?_⟩
    simp [escaped, hx, halone, Scan.cons, hslash, Nat.add_assoc]
  | case5 pos cs hq =>
    cases h
    refine ⟨[], .cons hquote (.refl _), fun pos more => ?_⟩
    rw [List.nil_append, escaped.eq_def]
    simp [hq, hquote]
  | case6 pos c cs hc hq ih =>
    obtain ⟨rest, hscan, rfl⟩ := exists_of_cons_eq_closed h
    obtain ⟨body, hover, halone⟩ := ih hscan
    refine ⟨c :: body, .cons rfl hover, fun pos more => ?_⟩
    rw [List.cons_append, escaped.eq_def]
    simp [hc, hq, halone, Scan.cons, Nat.add_assoc]

theorem escaped_over (hquote : quote.utf8Size = 1) (h : escaped table quote pos cs = .closed content after) :
    ∃ body, Place.Over ⟨pos, cs⟩ (body ++ [quote]) after ∧
      ∀ more, escaped table quote pos (body ++ quote :: more) = .closed content ⟨after.pos, more⟩ := by
  obtain ⟨body, hover, halone⟩ := escaped_anywhere hquote h
  exact ⟨body, hover, fun more => by rw [halone pos more, hover.pos]⟩

/-- A text with doubled quotes ends at its quote, unless another one comes behind. -/
theorem doubled_over (hquote : quote.utf8Size = 1) (h : doubled quote pos cs = .closed content after) :
    ∃ body, Place.Over ⟨pos, cs⟩ (body ++ [quote]) after ∧
      ∀ more, more <+: after.rest → doubled quote pos (body ++ quote :: more) = .closed content ⟨after.pos, more⟩ := by
  fun_induction doubled quote pos cs generalizing content with
  | case1 => cases h
  | case2 pos =>
    cases h
    refine ⟨[], .cons hquote (.refl _), fun more hmore => ?_⟩
    obtain rfl := List.prefix_nil.mp hmore
    simp [doubled]
  | case3 pos cs ih =>
    obtain ⟨rest, hscan, rfl⟩ := exists_of_cons_eq_closed h
    obtain ⟨body, hover, halone⟩ := ih hscan
    refine ⟨quote :: quote :: body, .cons hquote (.cons hquote hover), fun more hmore => ?_⟩
    simp [doubled, halone more hmore, Scan.cons]
  | case4 pos d cs hd =>
    cases h
    refine ⟨[], .cons hquote (.refl _), fun more hmore => ?_⟩
    cases more with
    | nil => simp [doubled]
    | cons c more =>
      obtain rfl := (List.cons_prefix_cons.mp hmore).1
      simp [doubled, hd]
  | case5 pos c cs hc ih =>
    obtain ⟨rest, hscan, rfl⟩ := exists_of_cons_eq_closed h
    obtain ⟨body, hover, halone⟩ := ih hscan
    refine ⟨c :: body, .cons rfl hover, fun more hmore => ?_⟩
    rw [List.cons_append, doubled.eq_def]
    simp [hc, halone more hmore, Scan.cons]

section

variable {mark : Char}

theorem eq_nil_of_marked (hfree : ∀ before behind, mark :: cs = before ++ mark :: behind → width front ≤ width before) :
    front = [] := by
  have hwidth := hfree [] cs rfl
  cases front with
  | nil => rfl
  | cons d front =>
    have hd := d.utf8Size_pos
    simp only [Text.width_cons, Text.width_nil] at hwidth
    omega

theorem eq_nil_of_closed {q : Place} (h : Scan.closed [] q = .closed (front ++ more) after) : front = [] := by
  obtain ⟨hnil, -⟩ := Scan.closed.inj h
  exact (List.append_eq_nil_iff.mp hnil.symm).1

theorem front_cons {c : Char} {scan : Scan} (h : scan.cons c = .closed (front ++ more) after)
    (hfree : ∀ before behind, c :: cs = before ++ mark :: behind → width front ≤ width before)
    (ih : ∀ {front}, scan = .closed (front ++ more) after →
      (∀ before behind, cs = before ++ mark :: behind → width front ≤ width before) → front <+: cs) :
    front <+: c :: cs := by
  cases front with
  | nil => exact List.nil_prefix
  | cons d front =>
    obtain ⟨rest, hscan, heq⟩ := exists_of_cons_eq_closed h
    obtain ⟨rfl, rfl⟩ := List.cons.inj heq
    refine (List.prefix_cons_inj d).mpr (ih hscan fun before behind heq => ?_)
    have hwidth := hfree (d :: before) behind (by rw [heq]; rfl)
    simp only [Text.width_cons] at hwidth
    omega

/-- A front of the content that ends before the first backslash is written as it is. -/
theorem escaped_front (h : escaped table quote pos cs = .closed (front ++ more) after)
    (hfree : ∀ before behind, cs = before ++ '\\' :: behind → width front ≤ width before) : front <+: cs := by
  fun_induction escaped table quote pos cs generalizing front with
  | case1 | case2 | case4 => cases h
  | case3 => exact eq_nil_of_marked hfree ▸ List.nil_prefix
  | case5 => exact eq_nil_of_closed h ▸ List.nil_prefix
  | case6 pos c cs hc hq ih => exact front_cons h hfree ih

/-- A front of the content that ends before the first quote is written as it is. -/
theorem doubled_front (h : doubled quote pos cs = .closed (front ++ more) after)
    (hfree : ∀ before behind, cs = before ++ quote :: behind → width front ≤ width before) : front <+: cs := by
  fun_induction doubled quote pos cs generalizing front with
  | case1 => cases h
  | case2 | case4 => exact eq_nil_of_closed h ▸ List.nil_prefix
  | case3 => exact eq_nil_of_marked hfree ▸ List.nil_prefix
  | case5 pos c cs hc ih => exact front_cons h hfree ih

end

end Quoted

/-! ## Gaps -/

/-- A text in which gaps with a line break are filled with as many spaces as they have bytes. -/
inductive Filled : List Char → List Char → Prop
  | nil : Filled [] []
  | keep (c : Char) {written filled : List Char} (h : Filled written filled) : Filled (c :: written) (c :: filled)
  | gap {between written filled : List Char} (hbreak : '\n' ∈ between) (h : Filled written filled) :
      Filled (between ++ written) (List.replicate (width between) ' ' ++ filled)

namespace Filled

variable {written filled a b : List Char}

theorem refl : ∀ cs : List Char, Filled cs cs
  | [] => .nil
  | c :: cs => .keep c (refl cs)

theorem append (h : Filled written filled) (h' : Filled a b) : Filled (written ++ a) (filled ++ b) := by
  induction h with
  | nil => exact h'
  | keep c _ ih => exact .keep c ih
  | gap hbreak _ ih =>
    rw [List.append_assoc, List.append_assoc]
    exact .gap hbreak ih

theorem width_eq (h : Filled written filled) : width filled = width written := by
  induction h with
  | nil => rfl
  | keep c _ ih => rw [Text.width_cons, Text.width_cons, ih]
  | gap _ _ ih => rw [Text.width_append, Text.width_append, Text.width_replicate_space, ih]

/-- A text without line breaks has no gaps. -/
theorem eq_of_not_mem (h : Filled written filled) (hbreak : '\n' ∉ written) : filled = written := by
  induction h with
  | nil => rfl
  | keep c _ ih => rw [ih fun hmem => hbreak (List.mem_cons_of_mem c hmem)]
  | gap hgap _ _ => exact absurd (List.mem_append_left _ hgap) hbreak

/-- A cut inside a gap has spaces on both sides. -/
theorem spaces_beside {n : Nat} {s : Char} {spaces : List Char} (h : List.replicate n ' ' = a ++ s :: spaces)
    (ha : a ≠ []) : a.getLast? = some ' ' ∧ s = ' ' := by
  have hall : ∀ c ∈ a ++ s :: spaces, c = ' ' := by
    rw [← h]
    exact fun c hc => List.eq_of_mem_replicate hc
  refine ⟨?_, hall s (List.mem_append_right a List.mem_cons_self)⟩
  rw [List.getLast?_eq_some_getLast ha, hall _ (List.mem_append_left _ (List.getLast_mem ha))]

/-- A filled text can be cut wherever no space stands on one of both sides. -/
theorem cut (h : Filled written (a ++ b)) (hcut : a.getLast? ≠ some ' ' ∨ b.head? ≠ some ' ') :
    ∃ front back, written = front ++ back ∧ Filled front a ∧ Filled back b := by
  cases a with
  | nil => exact ⟨[], written, rfl, .nil, h⟩
  | cons d a =>
    generalize hab : d :: a ++ b = filled at h
    induction h generalizing d a with
    | nil => cases hab
    | keep c h ih =>
      obtain ⟨rfl, rfl⟩ := List.cons.inj hab
      cases a with
      | nil => exact ⟨[d], _, rfl, .keep d .nil, h⟩
      | cons d' a =>
        obtain ⟨front, back, rfl, hfront, hback⟩ := ih d' a (by simpa using hcut) rfl
        exact ⟨d :: front, back, rfl, .keep d hfront, hback⟩
    | @gap between written filled hbreak h ih =>
      rcases List.append_eq_append_iff.mp hab with ⟨spaces, hspaces, rfl⟩ | ⟨more, hmore, rfl⟩
      · cases spaces with
        | nil =>
          rw [List.append_nil] at hspaces
          refine ⟨between, written, rfl, ?_, h⟩
          rw [← hspaces]
          simpa using Filled.gap hbreak .nil
        | cons s spaces =>
          obtain ⟨hlast, rfl⟩ := spaces_beside hspaces (List.cons_ne_nil d a)
          rcases hcut with hcut | hcut
          · exact absurd hlast hcut
          · exact absurd rfl hcut
      · cases more with
        | nil =>
          refine ⟨between, written, rfl, ?_, h⟩
          rw [hmore]
          simpa using Filled.gap hbreak .nil
        | cons d' more =>
          have hcut' : (d' :: more).getLast? ≠ some ' ' ∨ b.head? ≠ some ' ' := by
            rw [hmore, List.getLast?_append_of_ne_nil _ (List.cons_ne_nil d' more)] at hcut
            exact hcut
          obtain ⟨front, back, rfl, hfront, hback⟩ := ih d' more hcut' rfl
          refine ⟨between ++ front, back, (List.append_assoc ..).symm, ?_, hback⟩
          rw [hmore]
          exact .gap hbreak hfront

/-- What stands for a part that begins and ends with no space. -/
theorem part {before part behind : List Char} (h : Filled written (before ++ (part ++ behind)))
    (hpart : Text.Inked part) :
    ∃ front middle back, written = front ++ (middle ++ back) ∧ width front = width before ∧ Filled middle part := by
  have hhead : (part ++ behind).head? ≠ some ' ' := by
    rw [List.head?_append_of_ne_nil _ hpart.ne_nil]
    exact hpart.head
  obtain ⟨front, rest, rfl, hfront, hrest⟩ := h.cut (.inr hhead)
  obtain ⟨middle, back, rfl, hmiddle, -⟩ := hrest.cut (.inl hpart.last)
  exact ⟨front, middle, back, rfl, hfront.width_eq.symm, hmiddle⟩

/-- A character that is no space stands for itself. -/
theorem exists_of_cons {c : Char} (hc : c ≠ ' ') (h : Filled written (c :: b)) : ∃ back, written = c :: back := by
  generalize hfilled : c :: b = filled at h
  cases h with
  | nil => cases hfilled
  | keep d h =>
    cases hfilled
    exact ⟨_, rfl⟩
  | @gap between _ _ hbreak h =>
    obtain ⟨d, between, rfl⟩ := List.exists_cons_of_ne_nil (List.ne_nil_of_mem hbreak)
    obtain ⟨n, hn⟩ : ∃ n, width (d :: between) = n + 1 := by
      have hd := d.utf8Size_pos
      rw [Text.width_cons]
      exact ⟨d.utf8Size + width between - 1, by omega⟩
    rw [hn, List.replicate_succ] at hfilled
    exact absurd (List.cons.inj hfilled).1 hc

/-- It stands at its place. -/
theorem has {pos lo hi : Nat} {c : Char} (h : Filled written filled) (hc : c ≠ ' ')
    (hhas : Place.Has ⟨pos, filled⟩ c lo hi) : Place.Has ⟨pos, written⟩ c lo hi := by
  obtain ⟨before, behind, hfilled, hlo, hhi⟩ := hhas
  obtain rfl : filled = before ++ c :: behind := hfilled
  have hhead : (c :: behind).head? ≠ some ' ' := by simpa using hc
  obtain ⟨front, back, rfl, hfront, hback⟩ := h.cut (.inr hhead)
  obtain ⟨back, rfl⟩ := exists_of_cons hc hback
  rw [hfront.width_eq] at hlo hhi
  exact ⟨front, back, rfl, hlo, hhi⟩

end Filled

end Sketchwork
