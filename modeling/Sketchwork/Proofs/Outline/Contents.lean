/-
  Sketchwork.Proofs.Outline.Contents — what a line may hold.

  The search for comments keeps track of quotes on its own. `Runs p s q` says that it passes
  over `s` with nothing left out when `p` is before it, and goes on with `q` before the rest.
  A quote is only seen as one after a blank, a bracket, a comma or a colon (`Opener`), and
  a text between quotes is always behind one of these.

  Proved: a value on one line is passed over whole, begins and ends with no blank, is no marker, and
  has no line break (`Inline.isContent`), and so is what stands on the line of a dash
  (`IsContent.beside`) or of a key (`Key.isContent_append`).
-/
import Sketchwork.Proofs.Outline.Inline

namespace Sketchwork.Layout

open Text (isBlank)

/-! ## Passing over texts -/

/-- After this character a quote opens. -/
def Opener (p : Char) : Prop :=
  (isBlank p || "[\x7b,:".contains p) = true

/-- The search keeps a character that is no quote and no escape, and begins no comment. -/
theorem withoutComment_char {c p : Char} (hc : c ∉ ['"', '\'', '\\']) (hhash : ¬(isBlank p = true ∧ c = '#'))
    (r : List Char) : Line.withoutComment none p (c :: r) = c :: Line.withoutComment none c r := by
  simp only [List.mem_cons, List.not_mem_nil, or_false, not_or] at hc
  obtain ⟨hquote, hapostrophe, hslash⟩ := hc
  have hnone : (c == '#' && isBlank p) = false := by
    rw [← Bool.not_eq_true, Bool.and_eq_true, beq_iff_eq]
    exact fun h => hhash h.symm
  rw [Line.withoutComment]
  simp [hquote, hapostrophe, hslash, hnone]

structure Runs (p : Char) (s : List Char) (q : Char) : Prop where
  newline : '\n' ∉ s
  keeps : ∀ r, Line.withoutComment none p (s ++ r) = s ++ Line.withoutComment none q r

namespace Runs

variable {p q q' : Char} {s t : List Char}

theorem nil (p : Char) : Runs p [] p := ⟨nofun, fun _ => rfl⟩

theorem trans (hs : Runs p s q) (ht : Runs q t q') : Runs p (s ++ t) q' := by
  refine ⟨?_, fun r => ?_⟩
  · rw [List.mem_append]
    rintro (h | h)
    · exact hs.newline h
    · exact ht.newline h
  · rw [List.append_assoc, hs.keeps, ht.keeps, List.append_assoc]

/-- A character that is no quote and begins no comment or escape. -/
theorem char {c : Char} (hc : c ∉ ['"', '\'', '#', '\\', '\n']) (p : Char) : Runs p [c] c := by
  simp only [List.mem_cons, List.not_mem_nil, or_false, not_or] at hc
  obtain ⟨hquote, hapostrophe, hhash, hbackslash, hnewline⟩ := hc
  have hplain : c ∉ ['"', '\'', '\\'] := by simp [hquote, hapostrophe, hbackslash]
  exact ⟨by simpa using Ne.symm hnewline, withoutComment_char hplain fun h => hhash h.2⟩

theorem cons {c : Char} (hc : c ∉ ['"', '\'', '#', '\\', '\n']) (p : Char) (h : Runs c s q) : Runs p (c :: s) q :=
  (char hc p).trans h

theorem chars (hs : ∀ c ∈ s, c ∉ ['"', '\'', '#', '\\', '\n']) (p : Char) : ∃ q, Runs p s q := by
  induction s generalizing p with
  | nil => exact ⟨p, .nil p⟩
  | cons c s ih =>
    obtain ⟨q, hq⟩ := ih (fun c hc => hs c (List.mem_cons_of_mem _ hc)) c
    exact ⟨q, .cons (hs c List.mem_cons_self) p hq⟩

theorem spaces_succ (n : Nat) (p : Char) : Runs p (spaces (n + 1)) ' ' := by
  induction n generalizing p with
  | zero => exact .char (by decide) p
  | succ n ih => exact .cons (by decide) p (ih ' ')

theorem spaces (n : Nat) (hp : Opener p) : ∃ q, Runs p (spaces n) q ∧ Opener q := by
  cases n with
  | zero => exact ⟨p, .nil p, hp⟩
  | succ n => exact ⟨' ', .spaces_succ n p, rfl⟩

end Runs

theorem withoutComment_chars (chars : List Spelled) {p : Char} (hp : p ≠ '\\') (r : List Char) :
    Line.withoutComment (some '"') p (chars.flatMap Spelled.text ++ '"' :: r) =
      chars.flatMap Spelled.text ++ '"' :: Line.withoutComment none '"' r := by
  induction chars generalizing p with
  | nil => simp [Line.withoutComment, hp]
  | cons s chars ih =>
    rw [List.flatMap_cons, List.append_assoc, List.append_assoc]
    cases s with
    | raw c hquote hbackslash _ =>
      show Line.withoutComment _ p (c :: _) = c :: _
      rw [Line.withoutComment]
      simp [hquote, hbackslash, ih hbackslash]
    | escaped e =>
      show Line.withoutComment _ p ('\\' :: e.mark :: _) = '\\' :: e.mark :: _
      cases e <;> simp [Line.withoutComment, Escape.mark, ih, hp]

theorem opener_of_mem {p : Char} (h : p ∈ ['[', '\x7b', ',', ':']) : Opener p := by
  simp only [List.mem_cons, List.not_mem_nil, or_false] at h
  rcases h with rfl | rfl | rfl | rfl <;> simp [Opener]

namespace Runs

variable {p q q' : Char} {s t : List Char}

theorem quoted (quoted : Quoted) (hp : Opener p) : Runs p quoted.text '"' := by
  refine ⟨?_, fun r => ?_⟩
  · intro h
    simp only [Quoted.text, List.mem_cons, List.mem_append, List.mem_flatMap, List.not_mem_nil, or_false] at h
    rcases h with h | ⟨s, -, hs⟩ | h
    · cases h
    · cases s with
      | raw c _ _ hnewline => exact hnewline (List.mem_singleton.mp hs).symm
      | escaped e => cases e <;> simp [Spelled.text, Escape.mark] at hs
    · cases h
  · have hopen : (isBlank p || "[\x7b,:".contains p) = true := hp
    show Line.withoutComment none p ('"' :: (quoted.chars.flatMap Spelled.text ++ ['"'] ++ r)) = _
    rw [Line.withoutComment]
    simp only [hopen, List.append_assoc, List.cons_append, List.nil_append]
    simp [withoutComment_chars, Quoted.text]

theorem word {w : List Char} (hw : IsWord w) (p : Char) : ∃ q, Runs p w q := by
  refine chars (fun c hc hmem => ?_) p
  have hword := hw.chars c hc
  simp only [List.mem_cons, List.not_mem_nil, or_false] at hmem
  rcases hmem with rfl | rfl | rfl | rfl | rfl <;> cases hword

theorem anySpaces (n : Nat) (p : Char) : ∃ q, Runs p (Layout.spaces n) q :=
  chars (fun c hc => by rw [List.eq_of_mem_replicate hc]; decide) p

theorem scalar (s : Scalar) (hp : Opener p) : ∃ q, Runs p s.chars q := by
  by_cases hs : s.IsPlain
  · exact word (Scalar.isWord_chars hs) p
  · cases s with
    | text q => exact ⟨_, quoted q hp⟩
    | null | bool | number => exact absurd trivial hs

end Runs

mutual

theorem runs_inline : ∀ (v : Inline) {p : Char}, Opener p → ∃ q, Runs p v.text q
  | .scalar s, _, hp => Runs.scalar s hp
  | .emptyList gap, p, _ => by
    obtain ⟨q, hgap⟩ := Runs.anySpaces gap '['
    exact ⟨']', .cons (by decide) p (hgap.trans (.char (by decide) q))⟩
  | .list items, p, _ => by
    obtain ⟨q, hitems⟩ := runs_items items (opener_of_mem (p := '[') (by simp))
    exact ⟨']', .cons (by decide) p (hitems.trans (.char (by decide) q))⟩
  | .emptyMap gap, p, _ => by
    obtain ⟨q, hgap⟩ := Runs.anySpaces gap '\x7b'
    exact ⟨'\x7d', .cons (by decide) p (hgap.trans (.char (by decide) q))⟩
  | .map fields, p, _ => by
    obtain ⟨q, hfields⟩ := runs_fields fields (opener_of_mem (p := '\x7b') (by simp))
    exact ⟨'\x7d', .cons (by decide) p (hfields.trans (.char (by decide) q))⟩

theorem runs_items : ∀ (items : Items) {p : Char}, Opener p → ∃ q, Runs p items.text q
  | .one before item after, p, hp => by
    obtain ⟨q₁, hbefore, hq₁⟩ := Runs.spaces before hp
    obtain ⟨q₂, hitem⟩ := runs_inline item hq₁
    obtain ⟨q₃, hafter⟩ := Runs.anySpaces after q₂
    exact ⟨q₃, hbefore.trans (hitem.trans hafter)⟩
  | .cons before item after more, p, hp => by
    obtain ⟨q₁, hbefore, hq₁⟩ := Runs.spaces before hp
    obtain ⟨q₂, hitem⟩ := runs_inline item hq₁
    obtain ⟨q₃, hafter⟩ := Runs.anySpaces after q₂
    obtain ⟨q₄, hmore⟩ := runs_items more (opener_of_mem (p := ',') (by simp))
    exact ⟨q₄, hbefore.trans (hitem.trans (hafter.trans (.cons (by decide) q₃ hmore)))⟩

theorem runs_fields : ∀ (fields : Fields) {p : Char}, Opener p → ∃ q, Runs p fields.text q
  | .one before key left right value after, p, hp => by
    obtain ⟨q₁, hbefore, hq₁⟩ := Runs.spaces before hp
    obtain ⟨q₂, hleft⟩ := Runs.anySpaces left '"'
    obtain ⟨q₃, hright, hq₃⟩ := Runs.spaces right (opener_of_mem (p := ':') (by simp))
    obtain ⟨q₄, hvalue⟩ := runs_inline value hq₃
    obtain ⟨q₅, hafter⟩ := Runs.anySpaces after q₄
    exact ⟨q₅, hbefore.trans ((Runs.quoted key hq₁).trans (hleft.trans (.cons (by decide) q₂
      (hright.trans (hvalue.trans hafter)))))⟩
  | .cons before key left right value after more, p, hp => by
    obtain ⟨q₁, hbefore, hq₁⟩ := Runs.spaces before hp
    obtain ⟨q₂, hleft⟩ := Runs.anySpaces left '"'
    obtain ⟨q₃, hright, hq₃⟩ := Runs.spaces right (opener_of_mem (p := ':') (by simp))
    obtain ⟨q₄, hvalue⟩ := runs_inline value hq₃
    obtain ⟨q₅, hafter⟩ := Runs.anySpaces after q₄
    obtain ⟨q₆, hmore⟩ := runs_fields more (opener_of_mem (p := ',') (by simp))
    exact ⟨q₆, hbefore.trans ((Runs.quoted key hq₁).trans (hleft.trans (.cons (by decide) q₂
      (hright.trans (hvalue.trans (hafter.trans (.cons (by decide) q₅ hmore)))))))⟩

end

/-! ## Keys -/

theorem isAlphanum_of_isIdentifier {word : List Char} (h : Document.isIdentifier word = true) {c : Char} (hc : c ∈ word) :
    c.isAlphanum = true ∨ c = '_' := by
  cases word with
  | nil => cases hc
  | cons d ds =>
    simp only [Document.isIdentifier, Lexer.isNameStart, Lexer.isNamePart, Bool.and_eq_true, List.all_eq_true,
      Bool.or_eq_true, beq_iff_eq] at h
    rcases List.mem_cons.mp hc with rfl | hc
    · exact h.1.imp_left fun ha => by simp [Char.isAlphanum, ha]
    · exact h.2 c hc

namespace Key

variable (k : Key)

theorem isAlphanum_of_mem {c : Char} (hc : c ∈ k.text) : c.isAlphanum = true ∨ c ∈ ['_', '$', ':'] := by
  simp only [text, List.mem_append] at hc
  rcases hc with hc | hc | hc
  · cases hs : k.sigil <;> simp_all
  · exact (isAlphanum_of_isIdentifier k.isIdentifier hc).imp_right fun h => by simp [h]
  · cases hs : k.sketch with
    | false => simp [hs] at hc
    | true =>
      simp only [hs, if_true, List.mem_cons, List.not_mem_nil, or_false] at hc
      rcases hc with rfl | rfl | rfl | rfl | rfl | rfl | rfl <;> simp

/-- A key begins with a letter, an underscore or its sigil. -/
theorem exists_cons : ∃ c cs, k.text = c :: cs ∧ (c.isAlpha = true ∨ c ∈ ['_', '$']) := by
  have hname := k.isIdentifier
  cases hs : k.sigil with
  | true => exact ⟨'$', _, by rw [text, hs]; rfl, .inr (by simp)⟩
  | false =>
    cases hn : k.name with
    | nil => rw [hn] at hname; cases hname
    | cons c cs =>
      rw [hn] at hname
      simp only [Document.isIdentifier, Lexer.isNameStart, Bool.and_eq_true, Bool.or_eq_true, beq_iff_eq] at hname
      refine ⟨c, _, by rw [text, hs, hn]; rfl, ?_⟩
      rcases hname.1 with h | rfl
      · exact .inl h
      · exact .inr (by simp)

theorem isBlank_of_mem {c : Char} (hc : c ∈ k.text) : isBlank c = false := by
  rcases k.isAlphanum_of_mem hc with h | h
  · exact isBlank_of_isAlphanum h
  · simp only [List.mem_cons, List.not_mem_nil, or_false] at h
    rcases h with rfl | rfl | rfl <;> rfl

theorem runs (p : Char) : ∃ q, Runs p k.text q := by
  refine Runs.chars (fun c hc hmem => ?_) p
  simp only [List.mem_cons, List.not_mem_nil, or_false] at hmem
  rcases k.isAlphanum_of_mem hc with h | h
  · rcases hmem with rfl | rfl | rfl | rfl | rfl <;> cases h
  · rcases hmem with rfl | rfl | rfl | rfl | rfl <;> simp at h

end Key

/-! ## Lines -/

structure IsContent (t : List Char) : Prop where
  cons : ∃ c cs, t = c :: cs ∧ isBlank c = false ∧ c ∉ [']', '\x7d']
  last : ∀ c ∈ t.getLast?, isBlank c = false
  marker : Line.isMarker t = false
  runs : ∀ p, Opener p → ∃ q, Runs p t q

/-- What a line may hold to be read as it is. -/
structure IsRow (t : List Char) : Prop where
  cons : ∃ c cs, t = c :: cs ∧ isBlank c = false
  last : ∀ c ∈ t.getLast?, isBlank c = false
  marker : Line.isMarker t = false
  runs : ∃ q, Runs ' ' t q

theorem IsContent.isRow {t : List Char} (h : IsContent t) : IsRow t := by
  obtain ⟨c, cs, hc, hblank, -⟩ := h.cons
  exact ⟨⟨c, cs, hc, hblank⟩, h.last, h.marker, h.runs ' ' rfl⟩

theorem isMarker_cons {c d : Char} {cs : List Char} (h : c = '-' → d ≠ '-') (h' : c ≠ '.') :
    Line.isMarker (c :: d :: cs) = false := by
  simp only [Line.isMarker, Bool.or_eq_false_iff, beq_eq_false_iff_ne, ne_eq, List.cons.injEq, not_and]
  exact ⟨fun hc hd => absurd hd (h hc), fun hc => absurd hc h'⟩

theorem isMarker_of_cons {c : Char} {cs : List Char} (h : c ≠ '-') (h' : c ≠ '.') : Line.isMarker (c :: cs) = false := by
  simp only [Line.isMarker, Bool.or_eq_false_iff, beq_eq_false_iff_ne, ne_eq, List.cons.injEq, not_and]
  exact ⟨fun hc => absurd hc h, fun hc => absurd hc h'⟩

theorem Scalar.isMarker_chars (s : Scalar) : Line.isMarker s.chars = false := by
  cases s with
  | null word h =>
    show Line.isMarker word = false
    simp only [nullWords, List.mem_cons, List.not_mem_nil, or_false] at h
    rcases h with rfl | rfl | rfl | rfl <;> rfl
  | bool b word h =>
    show Line.isMarker word = false
    cases b <;> simp only [boolWords, List.mem_cons, List.not_mem_nil, or_false] at h <;>
      rcases h with rfl | rfl | rfl <;> rfl
  | number n =>
    show Line.isMarker n.text = false
    have hn := n.number?_text
    simp only [Line.isMarker, Bool.or_eq_false_iff, beq_eq_false_iff_ne]
    constructor <;> (intro h; rw [h] at hn; cases hn)
  | text q => exact isMarker_of_cons (by decide) (by decide)

theorem Inline.isBlank_getLast? (v : Inline) : ∀ c ∈ v.text.getLast?, isBlank c = false := by
  have hbracket {s : List Char} {b d : Char} (hb : isBlank b = false) : ∀ c ∈ (d :: (s ++ [b])).getLast?, isBlank c = false := by
    rw [← List.cons_append, List.getLast?_concat]
    rintro _ ⟨⟩
    exact hb
  cases v with
  | scalar s =>
    by_cases hs : s.IsPlain
    · exact (Scalar.isWord_chars hs).not_blank_getLast?
    · cases s with
      | text q => exact hbracket rfl
      | null | bool | number => exact absurd trivial hs
  | emptyList | list | emptyMap | map => exact hbracket rfl

theorem Inline.isContent (v : Inline) : IsContent v.text := by
  refine ⟨exists_cons_of_inline v, v.isBlank_getLast?, ?_, fun p hp => runs_inline v hp⟩
  cases v with
  | scalar s => exact s.isMarker_chars
  | emptyList | list | emptyMap | map => exact isMarker_of_cons (by decide) (by decide)

/-- A dash, some spaces and a content. -/
theorem IsContent.beside {t : List Char} (h : IsContent t) (gap : Nat) : IsContent ('-' :: (spaces (gap + 1) ++ t)) := by
  obtain ⟨c, cs, rfl, -⟩ := h.cons
  refine ⟨⟨_, _, rfl, rfl, by decide⟩, ?_, isMarker_cons (fun _ => by decide) (by decide), fun p hp => ?_⟩
  · rw [← List.cons_append, List.getLast?_append_of_ne_nil _ (List.cons_ne_nil c cs)]
    exact h.last
  · obtain ⟨q, hq⟩ := h.runs ' ' rfl
    exact ⟨q, .cons (by decide) p ((Runs.spaces_succ gap '-').trans hq)⟩

theorem isContent_dash : IsContent ['-'] :=
  ⟨⟨_, _, rfl, rfl, by decide⟩, by rintro _ ⟨⟩; rfl, rfl, fun p _ => ⟨'-', .char (by decide) p⟩⟩

namespace Key

variable (k : Key)

/-- A character that is none of those a key begins with. -/
theorem ne_of_cons {c x : Char} {cs : List Char} (hc : k.text = c :: cs) (hx : x.isAlpha = false) (hx' : x ∉ ['_', '$']) :
    c ≠ x := by
  rintro rfl
  obtain ⟨d, ds, hd, hfirst⟩ := k.exists_cons
  obtain ⟨rfl, -⟩ := List.cons.inj (hc.symm.trans hd)
  rcases hfirst with h | h
  · rw [hx] at h; cases h
  · exact hx' h

theorem solid_append (t : List Char) : Solid (k.text ++ t) := by
  obtain ⟨c, cs, hc, -⟩ := k.exists_cons
  have hblank := k.isBlank_of_mem (hc ▸ List.mem_cons_self)
  rw [hc]
  exact .cons hblank

theorem isMarker_append (t : List Char) : Line.isMarker (k.text ++ t) = false := by
  obtain ⟨c, cs, hc, -⟩ := k.exists_cons
  have hdash := k.ne_of_cons hc (x := '-') rfl (by decide)
  have hdot := k.ne_of_cons hc (x := '.') rfl (by decide)
  rw [hc]
  exact isMarker_of_cons hdash hdot

theorem isContent_append {t : List Char} (ht : ∀ c ∈ t.getLast?, isBlank c = false) (hne : t ≠ [])
    (hr : ∀ p, ∃ q, Runs p t q) : IsContent (k.text ++ t) := by
  obtain ⟨c, cs, hc, -⟩ := k.exists_cons
  have hmem : c ∈ k.text := hc ▸ List.mem_cons_self
  refine ⟨⟨c, cs ++ t, by rw [hc]; rfl, k.isBlank_of_mem hmem, ?_⟩, ?_, k.isMarker_append t, fun p _ => ?_⟩
  · simp only [List.mem_cons, List.not_mem_nil, or_false, not_or]
    exact ⟨k.ne_of_cons hc rfl (by decide), k.ne_of_cons hc rfl (by decide)⟩
  · rw [List.getLast?_append_of_ne_nil _ hne]
    exact ht
  · obtain ⟨q, hq⟩ := k.runs p
    obtain ⟨q', hq'⟩ := hr q
    exact ⟨q', hq.trans hq'⟩

theorem isContent_colon : IsContent (k.text ++ [':']) :=
  k.isContent_append (by rintro _ ⟨⟩; rfl) nofun fun p => ⟨':', .char (by decide) p⟩

theorem isContent_value (gap : Nat) {t : List Char} (h : IsContent t) :
    IsContent (k.text ++ ':' :: (spaces (gap + 1) ++ t)) := by
  obtain ⟨c, cs, rfl, -⟩ := h.cons
  refine k.isContent_append ?_ nofun fun p => ?_
  · rw [← List.cons_append, List.getLast?_append_of_ne_nil _ (List.cons_ne_nil c cs)]
    exact h.last
  · obtain ⟨q, hq⟩ := h.runs ' ' rfl
    exact ⟨q, .cons (by decide) p ((Runs.spaces_succ gap ':').trans hq)⟩

end Key

end Sketchwork.Layout
