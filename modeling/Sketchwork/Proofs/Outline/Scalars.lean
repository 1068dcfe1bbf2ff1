/-
  Sketchwork.Proofs.Outline.Scalars — what is written where a scalar stands.

  Proved: a scalar neither begins nor ends with a space, and its characters alone are read as this
  scalar, whatever comes behind them (`scalar?_over`). As far as nothing in it is escaped, it is
  written as its content (`Spells.front`).
-/
import Sketchwork.Proofs.Outline.Extents
import Sketchwork.Proofs.Results
import Sketchwork.Proofs.Text.Parts

namespace Sketchwork

open Text (width)

/-- Every text in a value is good. -/
inductive Item.Texts (good : Item → Prop) : Item → Prop
  | null (span : Span) : Texts good (.null span)
  | bool (b : Bool) (span : Span) : Texts good (.bool b span)
  | number (x : Float) (span : Span) : Texts good (.number x span)
  | text {s : String} {quoted : Bool} {span : Span} (h : good (.text s quoted span)) : Texts good (.text s quoted span)
  | seq {items : List Item} (span : Span) (h : ∀ item ∈ items, Texts good item) : Texts good (.seq items span)
  | map {entries : List Item.Entry} (span : Span) (h : ∀ entry ∈ entries, Texts good entry.2) :
      Texts good (.map entries span)

theorem Item.Texts.mono {good weaker : Item → Prop} {item : Item} (h : item.Texts good)
    (hgood : ∀ s, good s → weaker s) : item.Texts weaker := by
  induction h with
  | null span => exact .null span
  | bool b span => exact .bool b span
  | number x span => exact .number x span
  | text h => exact .text (hgood _ h)
  | seq span _ ih => exact .seq span ih
  | map span _ ih => exact .map span ih

namespace Flow

/-! ## Scalars -/

/-- Characters that are read as a scalar. -/
def Spells (part : List Char) (scalar : Item) : Prop :=
  scalar? .block ⟨scalar.span.start, part⟩ = .ok (some (scalar, ⟨scalar.span.stop, []⟩))

/-- A scalar between quotes is one with escapes, or one with doubled quotes. -/
theorem quoted?_cases {p q : Place} {s : String} (h : quoted? p = .ok (some (s, q))) : ∃ body,
    (p.rest = '"' :: body ∧ Quoted.escaped unescape? '"' (p.pos + 1) body = .closed s.toList q) ∨
      (p.rest = '\'' :: body ∧ Quoted.doubled '\'' (p.pos + 1) body = .closed s.toList q) := by
  unfold quoted? at h
  dsimp only at h
  split at h
  · rename_i body hrest
    split at h
    · rename_i hclosed
      cases h
      exact ⟨body, .inl ⟨hrest, by rw [hclosed, String.toList_ofList]⟩⟩
    · cases h
    · cases h
  · rename_i body hrest
    split at h
    · rename_i hclosed
      cases h
      exact ⟨body, .inr ⟨hrest, by rw [hclosed, String.toList_ofList]⟩⟩
    · cases h
    · cases h
  · cases h

theorem quoted?_over {p q : Place} {s : String} (h : quoted? p = .ok (some (s, q))) :
    ∃ part, p.Over part q ∧ Text.Inked part ∧ quoted? ⟨p.pos, part⟩ = .ok (some (s, ⟨q.pos, []⟩)) := by
  obtain ⟨body, ⟨hrest, hclosed⟩ | ⟨hrest, hclosed⟩⟩ := quoted?_cases h
  · obtain ⟨inner, hover, hagain⟩ := Quoted.escaped_over rfl hclosed
    have hwhole : Place.Over ⟨p.pos, '"' :: body⟩ ('"' :: (inner ++ ['"'])) q := .cons rfl hover
    rw [← hrest] at hwhole
    refine ⟨_, hwhole, Quoted.inked (by decide) inner, ?_⟩
    simp [quoted?, hagain []]
  · obtain ⟨inner, hover, hagain⟩ := Quoted.doubled_over rfl hclosed
    have hwhole : Place.Over ⟨p.pos, '\'' :: body⟩ ('\'' :: (inner ++ ['\''])) q := .cons rfl hover
    rw [← hrest] at hwhole
    refine ⟨_, hwhole, Quoted.inked (by decide) inner, ?_⟩
    simp [quoted?, hagain [] List.nil_prefix]

/-- Whether a quoted scalar begins depends on the first character. -/
theorem quoted?_eq_none_of_head {p : Place} {pos : Nat} {cs : List Char} (h : quoted? p = .ok none)
    (hhead : cs.head? = p.rest.head?) : quoted? ⟨pos, cs⟩ = .ok none := by
  obtain ⟨pos', cs'⟩ := p
  unfold quoted? at h
  dsimp only at h
  split at h
  · split at h <;> cases h
  · split at h <;> cases h
  · rename_i hdouble hsingle
    cases cs with
    | nil => rfl
    | cons c cs =>
      obtain ⟨cs', rfl⟩ := List.head?_eq_some_iff.mp hhead.symm
      have hd : c ≠ '"' := by
        rintro rfl
        exact hdouble _ rfl
      have hs : c ≠ '\'' := by
        rintro rfl
        exact hsingle _ rfl
      simp [quoted?, hd, hs]

/-- A word without quotes is a word of the language, a number or a text. -/
theorem resolve_cases (word : List Char) (span : Span) : resolve word span = .null span ∨
    (∃ b, resolve word span = .bool b span) ∨ (∃ x, resolve word span = .number x span) ∨
      resolve word span = .text (String.ofList word) false span := by
  unfold resolve
  dsimp only
  split
  · exact .inl rfl
  split
  · exact .inr (.inl ⟨true, rfl⟩)
  split
  · exact .inr (.inl ⟨false, rfl⟩)
  split
  · exact .inr (.inr (.inl ⟨_, rfl⟩))
  · exact .inr (.inr (.inr rfl))

theorem span_resolve (word : List Char) (span : Span) : (resolve word span).span = span := by
  rcases resolve_cases word span with h | ⟨b, h⟩ | ⟨x, h⟩ | h <;> rw [h] <;> rfl

theorem scalar?_cases {context : Context} {p q : Place} {item : Item} (h : scalar? context p = .ok (some (item, q))) :
    (∃ s, quoted? p = .ok (some (s, q)) ∧ item = .text s true (.between p.pos q.pos)) ∨
      ∃ word, quoted? p = .ok none ∧ plain? context p = some (word, q) ∧
        item = resolve word (.between p.pos q.pos) := by
  obtain ⟨r, hquoted, h⟩ := exists_of_bind_eq_ok h
  cases r with
  | some r =>
    cases h
    exact .inl ⟨_, hquoted, rfl⟩
  | none =>
    obtain ⟨⟨word, q'⟩, hplain, heq⟩ := Option.map_eq_some_iff.mp (Except.ok.inj h)
    cases heq
    exact .inr ⟨word, hquoted, hplain, rfl⟩

theorem inked_trimEnd {whole cs : List Char} (hwhole : whole <+: cs) (hne : Text.trimEnd whole ≠ [])
    (hhead : cs.head? ≠ some ' ') : Text.Inked (Text.trimEnd whole) := by
  have hlast : ¬Text.isBlank ((Text.trimEnd whole).getLast hne) = true :=
    List.rdropWhile_last_not Text.isBlank whole hne
  obtain ⟨rest, rfl⟩ := (trimEnd_isPrefix whole).trans hwhole
  rw [List.head?_append_of_ne_nil _ hne] at hhead
  refine ⟨hne, hhead, ?_⟩
  rw [List.getLast?_eq_some_getLast hne]
  intro heq
  rw [Option.some_inj.mp heq] at hlast
  exact hlast rfl

/-- A plain scalar is a front of the text, without the blanks it ends with. -/
theorem plain?_over {context : Context} {p q : Place} {word : List Char} (h : plain? context p = some (word, q)) :
    p.Over word q ∧ (p.rest.head? ≠ some ' ' → Text.Inked word) ∧
      plain? .block ⟨p.pos, word⟩ = some (word, ⟨q.pos, []⟩) := by
  have of_whole (whole : List Char) (hwhole : whole <+: p.rest)
      (hreserved : (p.rest.head?.map isReserved).getD false = false)
      (h : (if (Text.trimEnd whole).isEmpty then none else some (Text.trimEnd whole,
        (⟨p.pos + width (Text.trimEnd whole), p.rest.drop (Text.trimEnd whole).length⟩ : Place))) = some (word, q)) :
      p.Over word q ∧ (p.rest.head? ≠ some ' ' → Text.Inked word) ∧
        plain? .block ⟨p.pos, word⟩ = some (word, ⟨q.pos, []⟩) := by
    split at h
    · cases h
    · rename_i hempty
      have hne : Text.trimEnd whole ≠ [] := by simpa using hempty
      have htrim : Text.trimEnd (Text.trimEnd whole) = Text.trimEnd whole :=
        List.rdropWhile_idempotent Text.isBlank whole
      obtain ⟨rest, hrest⟩ := (trimEnd_isPrefix whole).trans hwhole
      obtain ⟨rfl, rfl⟩ := Prod.mk.inj (Option.some_inj.mp h)
      refine ⟨⟨?_, rfl⟩, fun hhead => inked_trimEnd hwhole hne hhead, ?_⟩
      · dsimp only
        rw [← hrest, List.drop_left, hrest]
      · have hhead : (Text.trimEnd whole).head? = p.rest.head? := by
          rw [← hrest, List.head?_append_of_ne_nil _ hne]
        unfold plain?
        dsimp only
        rw [hhead, hreserved, htrim]
        simp [hempty]
  unfold plain? at h
  split at h
  · cases h
  · rename_i hreserved
    rw [Bool.not_eq_true] at hreserved
    cases context with
    | block => exact of_whole _ (List.prefix_refl _) hreserved h
    | item => exact of_whole _ (takePlain_isPrefix ..) hreserved h
    | key => exact of_whole _ (takePlain_isPrefix ..) hreserved h

theorem between_of_over {p q : Place} {part : List Char} (h : p.Over part q) :
    (Span.between p.pos q.pos).start = p.pos ∧ (Span.between p.pos q.pos).stop = q.pos := by
  have hpos := h.pos
  exact ⟨Nat.min_eq_left (by omega), Nat.max_eq_right (by omega)⟩

/-- A scalar is read from its characters alone. -/
theorem scalar?_over {context : Context} {p q : Place} {item : Item} (hhead : p.rest.head? ≠ some ' ')
    (h : scalar? context p = .ok (some (item, q))) :
    ∃ part, p.Over part q ∧ Text.Inked part ∧ item.span = .between p.pos q.pos ∧ Spells part item := by
  have spells {part : List Char} (hover : p.Over part q) (hspan : item.span = .between p.pos q.pos)
      (hagain : scalar? .block ⟨p.pos, part⟩ = .ok (some (item, ⟨q.pos, []⟩))) : Spells part item := by
    obtain ⟨hstart, hstop⟩ := between_of_over hover
    rw [Spells, hspan, hstart, hstop]
    exact hagain
  rcases scalar?_cases h with ⟨s, hquoted, rfl⟩ | ⟨word, hquoted, hplain, rfl⟩
  · obtain ⟨part, hover, hinked, hagain⟩ := quoted?_over hquoted
    refine ⟨part, hover, hinked, rfl, spells hover rfl ?_⟩
    rw [scalar?, hagain]
    rfl
  · obtain ⟨hover, hinked, hagain⟩ := plain?_over hplain
    have hinked := hinked hhead
    have hword : word.head? = p.rest.head? := by
      rw [hover.rest, List.head?_append_of_ne_nil _ hinked.ne_nil]
    refine ⟨word, hover, hinked, span_resolve _ _, spells hover (span_resolve _ _) ?_⟩
    rw [scalar?, quoted?_eq_none_of_head hquoted hword]
    show Except.ok ((plain? .block ⟨p.pos, word⟩).map _) = _
    rw [hagain]
    rfl

/-- A text is written between quotes, or as it is. -/
theorem Spells.quoted_or_plain {part : List Char} {s : String} {quoted : Bool} {span : Span}
    (h : Spells part (.text s quoted span)) :
    quoted = true ∧ quoted? ⟨span.start, part⟩ = .ok (some (s, ⟨span.stop, []⟩)) ∨
      quoted = false ∧ part = s.toList := by
  rcases scalar?_cases h with ⟨s', hquoted, hitem⟩ | ⟨word, -, hplain, hitem⟩
  · obtain ⟨rfl, rfl, -⟩ := Item.text.inj hitem
    exact .inl ⟨rfl, hquoted⟩
  · have hrest := (plain?_over hplain).1.rest
    rcases resolve_cases word _ with h | ⟨b, h⟩ | ⟨x, h⟩ | h <;> rw [h] at hitem
    · cases hitem
    · cases hitem
    · cases hitem
    · obtain ⟨rfl, rfl, -⟩ := Item.text.inj hitem
      exact .inr ⟨rfl, by simpa using hrest⟩

/-! ## Escapes -/

/-- The mark of the escapes in a scalar, by its first character. -/
def escape? : List Char → Option Char
  | '"' :: _ => some '\\'
  | '\'' :: _ => some '\''
  | _ => none

theorem escape?_cases {part : List Char} {mark : Char} (h : mark ∈ escape? part) : mark = '\\' ∨ mark = '\'' := by
  unfold escape? at h
  split at h
  · exact .inl (Option.some_inj.mp h).symm
  · exact .inr (Option.some_inj.mp h).symm
  · cases h

theorem ne_space_of_escape? {part : List Char} {mark : Char} (h : mark ∈ escape? part) : mark ≠ ' ' := by
  rcases escape?_cases h with rfl | rfl <;> decide

/-- A front of a scalar's content before whose end nothing is escaped is written as it is. -/
theorem Spells.front {part front more : List Char} {s : String} {quoted : Bool} {span : Span}
    (h : Spells part (.text s quoted span)) (hs : s.toList = front ++ more)
    (hfree : ∀ mark ∈ escape? part, ¬Place.Has ⟨span.start, part⟩ mark (Item.text s quoted span).contentStart
      ((Item.text s quoted span).contentStart + width front)) :
    ∃ opening behind, part = opening ++ (front ++ behind) ∧
      (Item.text s quoted span).contentStart = span.start + width opening := by
  rcases h.quoted_or_plain with ⟨rfl, hquoted⟩ | ⟨rfl, rfl⟩
  · -- behind the opening quote a mark that is not in the way stands behind the front
    have opened {quote mark : Char} {body : List Char} (hquote : quote.utf8Size = 1) (hpart : part = quote :: body)
        (hmark : mark ∈ escape? part)
        (hfront : (∀ before behind, body = before ++ mark :: behind → width front ≤ width before) → front <+: body) :
        ∃ opening behind, part = opening ++ (front ++ behind) ∧
          (Item.text s true span).contentStart = span.start + width opening := by
      have hwidth (cs : List Char) : width (quote :: cs) = 1 + width cs := by rw [Text.width_cons, hquote]
      obtain ⟨behind, hbehind⟩ := hfront fun before behind hbody => by
        by_contra hlt
        refine hfree mark hmark ⟨quote :: before, behind, by rw [hpart, hbody]; rfl, ?_, ?_⟩
        · rw [hwidth]
          simp only [Item.contentStart]
          omega
        · rw [hwidth]
          simp only [Item.contentStart]
          omega
      refine ⟨[quote], behind, by rw [hpart, hbehind]; rfl, ?_⟩
      rw [hwidth]
      rfl
    obtain ⟨body, ⟨hpart, hclosed⟩ | ⟨hpart, hclosed⟩⟩ := quoted?_cases hquoted
    · obtain rfl : part = '"' :: body := hpart
      rw [hs] at hclosed
      exact opened rfl rfl rfl (Quoted.escaped_front hclosed)
    · obtain rfl : part = '\'' :: body := hpart
      rw [hs] at hclosed
      exact opened rfl rfl rfl (Quoted.doubled_front hclosed)
  · exact ⟨[], more, hs, rfl⟩

/-! ## Collections -/

/-- A scalar stands in the text of a place and is what is written there. -/
def Written (p : Place) (scalar : Item) : Prop :=
  ∃ part, p.Shows scalar.span part ∧ Text.Inked part ∧ Spells part scalar

theorem texts_of_scalar? {good : Item → Prop} {context : Context} {p q : Place} {item : Item}
    (h : scalar? context p = .ok (some (item, q))) (hgood : good item) : item.Texts good := by
  rcases scalar?_cases h with ⟨s, -, rfl⟩ | ⟨word, -, -, rfl⟩
  · exact .text hgood
  · rcases resolve_cases word (.between p.pos q.pos) with h | ⟨b, h⟩ | ⟨x, h⟩ | h <;> rw [h] at hgood ⊢
    · exact .null _
    · exact .bool b _
    · exact .number x _
    · exact .text hgood

theorem leads_of_key? {p q : Place} {key : Spanned String} (h : key? p = .ok (some (key, q))) : p.Leads q := by
  obtain ⟨r, hquoted, h⟩ := exists_of_bind_eq_ok h
  cases r with
  | some r =>
    obtain ⟨s, q'⟩ := r
    cases h
    obtain ⟨part, hover, -, -⟩ := quoted?_over hquoted
    exact ⟨part, hover⟩
  | none =>
    obtain ⟨⟨word, q'⟩, hplain, heq⟩ := Option.map_eq_some_iff.mp (Except.ok.inj h)
    cases heq
    exact ⟨word, (plain?_over hplain).1⟩

theorem comma?_leads {p q : Place} (h : comma? p = some q) : p.Leads q ∧ q.rest.head? ≠ some ' ' := by
  obtain ⟨pos, cs⟩ := p
  unfold comma? at h
  dsimp only at h
  split at h
  · cases h
    exact ⟨(Place.leads_cons rfl _).trans (Place.leads_skipSpaces _), Place.skipSpaces_head _⟩
  · cases h

theorem close_leads {bracket : Char} (hbracket : bracket.utf8Size = 1) {start : Nat} {p q : Place}
    (h : close bracket start p = .ok q) : p.Leads q := by
  have hcomma : p.Leads ((comma? p).getD p) := by
    cases hc : comma? p with
    | none => exact .refl p
    | some q => exact (comma?_leads hc).1
  unfold close at h
  generalize (comma? p).getD p = p' at h hcomma
  obtain ⟨pos, cs⟩ := p'
  cases cs with
  | nil => cases h
  | cons c cs =>
    dsimp only at h
    split at h
    · rename_i heq
      subst heq
      cases h
      exact hcomma.trans (Place.leads_cons hbracket cs)
    · cases h

end Flow

end Sketchwork
