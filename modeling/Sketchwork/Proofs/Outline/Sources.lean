/-
  Sketchwork.Proofs.Outline.Sources — where the lines of a document stand in it.

  The lines of a document stand in it one behind the other, with a line break between each two
  (`Line.Behind`), and none of them has a line break in it or a blank at its end (`Line.Tidy`). With
  everything else blanked the document is a text of one line (`Line.flat`).

  Proved: the lines that are left to be read stand in the document and in its blanked text, at the
  same offsets (`Line.Ahead`). So it is with all lines (`ofDocument_ahead`), with fewer of them and
  with the end of one (`of_suffix`).
-/
import Sketchwork.Proofs.Outline.Accounting
import Sketchwork.Proofs.Outline.Ranges

namespace Sketchwork

open Text (width)

/-! ## Lines of a document -/

namespace Line

/-- A text with something in it that does not begin with a space. -/
structure Opens (cs : List Char) : Prop where
  ne_nil : cs ≠ []
  head : cs.head? ≠ some ' '

/-- Lines behind a place, each with a line break before it. -/
def Behind (p : Place) : List Line → Prop
  | [] => True
  | l :: ls => ∃ gap rest, p.Over gap ⟨l.start, l.text ++ rest⟩ ∧ '\n' ∈ gap ∧ Opens l.text ∧
      Behind ⟨l.stop, rest⟩ ls

/-- A line, or the end of one, stands in a document, and further lines behind it. -/
def On (source : Place) (l : Line) (ls : List Line) : Prop :=
  ∃ rest, source.Leads ⟨l.start, l.text ++ rest⟩ ∧ Opens l.text ∧ Behind ⟨l.stop, rest⟩ ls

/-- Lines that stand in a document. -/
def Stand (source : Place) : List Line → Prop
  | [] => True
  | l :: ls => On source l ls

variable {source p : Place} {l : Line} {ls : List Line}

theorem Behind.stand (h : Behind p ls) (hp : source.Leads p) : Stand source ls := by
  cases ls with
  | nil => trivial
  | cons l ls =>
    obtain ⟨gap, rest, hover, -, hopens, hbehind⟩ := h
    exact ⟨rest, hp.trans ⟨gap, hover⟩, hopens, hbehind⟩

theorem On.tail (h : On source l ls) : Stand source ls := by
  obtain ⟨rest, hleads, -, hbehind⟩ := h
  exact hbehind.stand (hleads.trans ⟨l.text, Place.over_append _ _ _⟩)

theorem Stand.tail (h : Stand source (l :: ls)) : Stand source ls :=
  On.tail h

/-- The end of a line stands where the line does. -/
theorem On.of_suffix {l' : Line} (h : On source l ls) (hsuffix : l'.text <:+ l.text) (hstop : l'.stop = l.stop)
    (hopens : Opens l'.text) : On source l' ls := by
  obtain ⟨rest, hleads, -, hbehind⟩ := h
  obtain ⟨front, hfront⟩ := hsuffix
  refine ⟨rest, hleads.trans ⟨front, ?_, ?_⟩, hopens, by rwa [hstop]⟩
  · dsimp only
    rw [← hfront, List.append_assoc]
  · dsimp only
    simp only [stop, ← hfront, Text.width_append] at hstop
    omega

/-! ## Ends of lines -/

theorem opens_trimStart {cs : List Char} (h : Text.trimStart cs ≠ []) : Opens (Text.trimStart cs) := by
  refine ⟨h, fun hhead => ?_⟩
  have hblank := Text.head?_dropWhile _ hhead
  exact absurd hblank (by decide)

/-- The value behind a key is the end of the line. -/
theorem keyed?_value {k : Keyed} (h : l.keyed? = some k) : k.value <:+ l.text ∧ ∃ cs, k.value = Text.trimStart cs := by
  unfold keyed? at h
  split at h
  iterate 5 cases h
  split at h
  · cases h
  · rename_i key value hsplit
    obtain ⟨gap, -, htext⟩ := exists_of_splitAtColon hsplit
    dsimp only at h
    split at h
    · cases h
    · cases h
      refine ⟨?_, value, rfl⟩
      rw [htext]
      exact ((List.dropWhile_suffix Text.isBlank).trans (List.suffix_append gap value)).trans
        ((List.suffix_cons ':' _).trans (List.suffix_append key _))

end Line

/-! ## From text to lines -/

namespace Line

/-- Pieces that end with a line break, but for the last. -/
def Broken : List (List Char) → Prop
  | [] => True
  | piece :: more => (more = [] ∨ ∃ front, piece = front ++ ['\n']) ∧ Broken more

theorem broken_pieces (cs : List Char) : Broken (pieces cs) := by
  induction cs with
  | nil => trivial
  | cons c cs ih =>
    rw [pieces]
    split
    · rename_i hc
      obtain rfl : c = '\n' := by simpa using hc
      exact ⟨.inr ⟨[], rfl⟩, ih⟩
    · split
      · exact ⟨.inl rfl, trivial⟩
      · rename_i piece more hmore
        rw [hmore] at ih
        refine ⟨ih.1.imp_right ?_, ih.2⟩
        rintro ⟨front, rfl⟩
        exact ⟨c :: front, rfl⟩

/-- A line stands in the text that it is read from, before its line break if there is one. -/
theorem ofText_stands {offset : Nat} {raw : List Char} {l : Line} (h : (ofText offset raw).1 = some l) :
    ∃ leading tail, Place.Over ⟨offset, raw⟩ leading ⟨l.start, l.text ++ tail⟩ ∧ Opens l.text ∧
      ∀ front, raw = front ++ ['\n'] → '\n' ∈ tail := by
  have hend (front : List Char) (hraw : raw = front ++ ['\n']) :
      Text.dropEndWhile (fun c => c == '\n' || c == '\r') raw <+: front := by
    have hconcat := List.rdropWhile_concat_pos (fun c => c == '\n' || c == '\r') front '\n' rfl
    rw [hraw, show Text.dropEndWhile _ (front ++ ['\n']) = _ from hconcat]
    exact List.rdropWhile_prefix _ front
  obtain ⟨dropped, hdropped⟩ := List.rdropWhile_prefix (fun c => c == '\n' || c == '\r') raw
  unfold ofText at h
  generalize hkept : Text.dropEndWhile (fun c => c == '\n' || c == '\r') raw = kept at h hend
  rw [show List.rdropWhile _ raw = kept from hkept] at hdropped
  have hleading : width (kept.takeWhile isIndentation) = (kept.takeWhile isIndentation).length :=
    Text.width_of_oneByte fun c hc => utf8Size_of_isIndentation (List.mem_takeWhile_imp hc)
  have hfront := (Flow.trimEnd_isPrefix _).trans (withoutComment_isPrefix none ' ' (kept.dropWhile isIndentation))
  dsimp only at h
  generalize Text.trimEnd (withoutComment none ' ' (kept.dropWhile isIndentation)) = content at h hfront
  split at h
  · cases h
  · rename_i hsome
    cases h
    have hhead : content.head? ≠ some ' ' := by
      intro hspace
      have hindent := Text.head?_dropWhile _ (Text.mem_head?_of_isPrefix hfront _ hspace)
      exact absurd hindent (by decide)
    obtain ⟨behind, hbehind⟩ := hfront
    have hraw : raw = kept.takeWhile isIndentation ++ (content ++ (behind ++ dropped)) := by
      rw [← hdropped, ← List.append_assoc content, hbehind, ← List.append_assoc, List.takeWhile_append_dropWhile]
    refine ⟨kept.takeWhile isIndentation, behind ++ dropped, ⟨hraw, ?_⟩, ⟨?_, hhead⟩, fun front hbreak => ?_⟩
    · rw [hleading]
    · rintro hnil
      dsimp only at hnil
      rw [hnil] at hsome
      exact hsome rfl
    · obtain ⟨more, hmore⟩ := hend front hbreak
      rw [hbreak, ← hmore, List.append_assoc] at hdropped
      rw [List.append_cancel_left hdropped]
      simp

/-- The line of a piece stands in it, and the lines of the other pieces behind it. -/
theorem exists_of_ofText {offset : Nat} {piece : List Char} {more : List (List Char)} {l : Line}
    (hl : (ofText offset piece).1 = some l) (hbroken : more = [] ∨ ∃ front, piece = front ++ ['\n'])
    (hmore : ∀ {p : Place} {gap : List Char} {offset : Nat}, p.Over gap ⟨offset, more.flatten⟩ → '\n' ∈ gap →
      Behind p (ofPieces offset more).1) :
    ∃ leading rest, Place.Over ⟨offset, piece ++ more.flatten⟩ leading ⟨l.start, l.text ++ rest⟩ ∧ Opens l.text ∧
      Behind ⟨l.stop, rest⟩ (ofPieces (offset + width piece) more).1 := by
  obtain ⟨leading, tail, hover, hopens, htail⟩ := ofText_stands hl
  have hpiece : piece = leading ++ (l.text ++ tail) := hover.rest
  have hstart : l.start = offset + width leading := hover.pos
  refine ⟨leading, tail ++ more.flatten, ⟨?_, hstart⟩, hopens, ?_⟩
  · dsimp only
    rw [hpiece]
    simp only [List.append_assoc]
  · rcases hbroken with rfl | ⟨front, hfront⟩
    · trivial
    · refine hmore ⟨rfl, ?_⟩ (htail front hfront)
      dsimp only
      rw [hpiece, stop, hstart, Text.width_append, Text.width_append]
      omega

/-- The lines of a text stand behind a place, where a line break is in front of the text. -/
theorem ofPieces_behind {pieces : List (List Char)} (hbroken : Broken pieces) : ∀ {p : Place} {gap : List Char}
    {offset : Nat}, p.Over gap ⟨offset, pieces.flatten⟩ → '\n' ∈ gap → Behind p (ofPieces offset pieces).1 := by
  induction pieces with
  | nil => exact fun _ _ => trivial
  | cons piece more ih =>
    intro p gap offset h hbreak
    show Behind p ((ofText offset piece).1.toList ++ (ofPieces (offset + width piece) more).1)
    cases hl : (ofText offset piece).1 with
    | none =>
      have hnext : p.Over (gap ++ piece) ⟨offset + width piece, more.flatten⟩ :=
        h.trans (Place.over_append offset piece more.flatten)
      exact ih hbroken.2 hnext (List.mem_append_left piece hbreak)
    | some l =>
      obtain ⟨leading, rest, hover, hopens, hbehind⟩ := exists_of_ofText hl hbroken.1 (ih hbroken.2)
      exact ⟨gap ++ leading, rest, h.trans hover, List.mem_append_left leading hbreak, hopens, hbehind⟩

/-- The lines of a text stand in it. -/
theorem ofPieces_stand {pieces : List (List Char)} (hbroken : Broken pieces) {source : Place} : ∀ {offset : Nat},
    source.Leads ⟨offset, pieces.flatten⟩ → Stand source (ofPieces offset pieces).1 := by
  induction pieces with
  | nil => exact fun _ => trivial
  | cons piece more ih =>
    intro offset h
    show Stand source ((ofText offset piece).1.toList ++ (ofPieces (offset + width piece) more).1)
    cases hl : (ofText offset piece).1 with
    | none => exact ih hbroken.2 (h.trans ⟨piece, Place.over_append offset piece more.flatten⟩)
    | some l =>
      obtain ⟨leading, rest, hover, hopens, hbehind⟩ := exists_of_ofText hl hbroken.1 (ofPieces_behind hbroken.2)
      exact ⟨rest, h.trans ⟨leading, hover⟩, hopens, hbehind⟩

/-- A text on one line with no blank at its end. -/
structure Tidy (cs : List Char) : Prop where
  newline : '\n' ∉ cs
  last : ∀ c ∈ cs.getLast?, Text.isBlank c = false

theorem Tidy.of_suffix {cs whole : List Char} (h : Tidy whole) (hsuffix : cs <:+ whole) : Tidy cs := by
  obtain ⟨front, rfl⟩ := hsuffix
  refine ⟨fun hbreak => h.newline (List.mem_append_right front hbreak), fun c hc => h.last c ?_⟩
  rw [List.getLast?_append_of_ne_nil _ (List.ne_nil_of_mem (List.mem_of_getLast? hc))]
  exact hc

theorem exists_of_mem_pieces {cs piece : List Char} (h : piece ∈ pieces cs) :
    ∃ front, '\n' ∉ front ∧ (piece = front ∨ piece = front ++ ['\n']) := by
  induction cs generalizing piece with
  | nil => cases h
  | cons c cs ih =>
    rw [pieces] at h
    split at h
    · rename_i hc
      rcases List.mem_cons.mp h with rfl | h
      · exact ⟨[], List.not_mem_nil, .inr (by simpa using hc)⟩
      · exact ih h
    · rename_i hc
      have hc : '\n' ≠ c := fun heq => hc (by simp [← heq])
      split at h
      · rw [List.mem_singleton.mp h]
        exact ⟨[c], by simpa using hc, .inl rfl⟩
      · rename_i first more hpieces
        rcases List.mem_cons.mp h with rfl | h
        · obtain ⟨front, hfront, hfirst⟩ := ih (hpieces ▸ List.mem_cons_self)
          refine ⟨c :: front, by simp [hc, hfront], ?_⟩
          rcases hfirst with rfl | rfl
          · exact .inl rfl
          · exact .inr rfl
        · exact ih (hpieces ▸ List.mem_cons_of_mem first h)

theorem tidy_content {cs piece : List Char} (h : piece ∈ pieces cs) : Tidy (Ledger.content piece) := by
  obtain ⟨front, hfront, hpiece⟩ := exists_of_mem_pieces h
  have hkept : Text.dropEndWhile Layout.isBreak piece <+: front := by
    rcases hpiece with rfl | rfl
    · exact List.rdropWhile_prefix _ _
    · rw [Layout.dropEndWhile_ending .lf]
      exact List.rdropWhile_prefix _ _
  refine ⟨fun hbreak => hfront (hkept.subset ?_), fun c hc => ?_⟩
  · have hcut := ((Flow.trimEnd_isPrefix _).trans (withoutComment_isPrefix ..)).subset hbreak
    exact (List.dropWhile_suffix _).subset hcut
  · have hne := List.ne_nil_of_mem (List.mem_of_getLast? hc)
    have hlast := List.rdropWhile_last_not Text.isBlank _ hne
    rw [← Option.some_inj.mp ((List.getLast?_eq_some_getLast hne).symm.trans hc)]
    exact Bool.eq_false_iff.mpr hlast

theorem tidy_of_mem {text : List Char} {l : Line} (h : l ∈ (ofDocument text).1) : Tidy l.text := by
  have hmem : l.text ∈ Ledger.contents text := Ledger.lines_contents text ▸ List.mem_map_of_mem h
  obtain ⟨piece, hpiece, hcontent⟩ := List.mem_map.mp (List.mem_of_mem_filter hmem)
  exact hcontent ▸ tidy_content hpiece

/-! ## Lines ahead -/

/-- A text with everything blanked but the contents of its lines. -/
def flat (text : List Char) : List Char :=
  Ledger.joined 0 (ofDocument text).1

/-- Lines in a text with everything else blanked. -/
def Flat (blanked : Place) : List Line → Prop
  | [] => True
  | l :: ls => blanked.Leads ⟨l.start, l.text ++ Ledger.joined l.stop ls⟩

/-- Lines of a document from `lo` on, which are left to be read. -/
structure Ahead (source blanked : Place) (lo : Nat) (lines : List Line) : Prop where
  bounds : From lo source.stop lines
  stand : Stand source lines
  flat : Flat blanked lines
  tidy : ∀ l ∈ lines, Tidy l.text

section

variable {source blanked : Place} {lo lo' stop : Nat} {l : Line} {ls : List Line}

theorem joined_eq (h : stop ≤ l.start) : blanked.Leads ⟨stop, Ledger.joined stop (l :: ls)⟩ →
    blanked.Leads ⟨l.start, l.text ++ Ledger.joined l.stop ls⟩ := by
  intro hleads
  refine hleads.trans ⟨List.replicate (l.start - stop) ' ', ?_, ?_⟩
  · rw [Ledger.joined]
    simp only [List.append_assoc]
  · rw [Text.width_replicate_space]
    dsimp only
    omega

/-- Behind lines that were taken the others stand as before. -/
theorem flat_of_leads (h : blanked.Leads ⟨stop, Ledger.joined stop ls⟩) (hfrom : From stop lo ls) : Flat blanked ls := by
  cases ls with
  | nil => trivial
  | cons l ls => exact joined_eq hfrom.1 h

namespace Ahead

theorem mono (h : Ahead source blanked lo ls) (hlo : lo' ≤ lo) : Ahead source blanked lo' ls :=
  ⟨h.bounds.mono hlo, h.stand, h.flat, h.tidy⟩

theorem start (h : Ahead source blanked lo (l :: ls)) : lo ≤ l.start :=
  h.bounds.1

theorem first (h : Ahead source blanked lo (l :: ls)) : Ahead source blanked l.start (l :: ls) :=
  ⟨⟨Nat.le_refl _, h.bounds.2⟩, h.stand, h.flat, h.tidy⟩

theorem leads_tail (h : Ahead source blanked lo (l :: ls)) : blanked.Leads ⟨l.stop, Ledger.joined l.stop ls⟩ :=
  Place.Leads.trans h.flat ⟨l.text, Place.over_append _ _ _⟩

theorem tail (h : Ahead source blanked lo (l :: ls)) : Ahead source blanked l.stop ls :=
  ⟨h.bounds.2.2, h.stand.tail, flat_of_leads h.leads_tail h.bounds.2.2, (List.forall_mem_cons.mp h.tidy).2⟩

theorem dropWhile (h : Ahead source blanked lo ls) (f : Line → Bool) : Ahead source blanked lo (ls.dropWhile f) := by
  induction ls with
  | nil => exact h
  | cons l ls ih =>
    rw [List.dropWhile_cons]
    split
    · exact ih (h.tail.mono (h.start.trans (Nat.le_add_right ..)))
    · exact h

theorem skipDeeper (h : Ahead source blanked lo ls) (indent : Nat) :
    Ahead source blanked lo (Block.skipDeeper indent ls).1 := by
  cases ls with
  | nil => exact h
  | cons l ls =>
    rw [Block.skipDeeper]
    split
    · exact (h.tail.mono (h.start.trans (Nat.le_add_right ..))).dropWhile _
    · exact h

/-- The end of a line is ahead where the line is. -/
theorem of_suffix {l' : Line} (h : Ahead source blanked lo (l :: ls)) (hsuffix : l'.text <:+ l.text)
    (hstop : l'.stop = l.stop) (hopens : Opens l'.text) : Ahead source blanked l'.start (l' :: ls) := by
  obtain ⟨hline, htidy⟩ := List.forall_mem_cons.mp h.tidy
  refine ⟨⟨Nat.le_refl _, hopens.ne_nil, hstop ▸ h.bounds.2.2⟩, On.of_suffix h.stand hsuffix hstop hopens, ?_,
    List.forall_mem_cons.mpr ⟨hline.of_suffix hsuffix, htidy⟩⟩
  obtain ⟨front, hfront⟩ := hsuffix
  refine Place.Leads.trans h.flat ⟨front, ?_, ?_⟩
  · rw [hstop, ← hfront, List.append_assoc]
  · simp only [Line.stop, ← hfront, Text.width_append] at hstop
    dsimp only
    omega

/-- What stands at the front of a line stands in the document. -/
theorem shows {part behind : List Char} (h : Ahead source blanked lo (l :: ls)) (htext : l.text = part ++ behind) :
    source.Shows (.sized l.start (width part)) part := by
  obtain ⟨rest, hleads, -, -⟩ := h.stand
  rw [htext, List.append_assoc] at hleads
  exact hleads.shows rfl rfl

end Ahead

end

/-- The lines of a document are ahead of it. -/
theorem ofDocument_ahead (text : List Char) : Ahead ⟨0, text⟩ ⟨0, flat text⟩ 0 (ofDocument text).1 := by
  have hfrom : From 0 (⟨0, text⟩ : Place).stop (ofDocument text).1 := by
    have hends := (ofPieces_ends (pieces text) 0).1
    rwa [flatten_pieces] at hends
  refine ⟨hfrom, ofPieces_stand (broken_pieces text) ?_, flat_of_leads (.refl _) hfrom, fun l hl => tidy_of_mem hl⟩
  rw [flatten_pieces]
  exact .refl _

end Line

end Sketchwork
