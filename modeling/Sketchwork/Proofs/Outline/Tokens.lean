/-
  Sketchwork.Proofs.Outline.Tokens — the tokens of collections, as they are written.

  A scalar in a collection is a text between quotes of either kind, or it is plain. A plain
  scalar may hold brackets and quotes, as long as the scanner of plain scalars is between
  brackets and outside quotes again behind it (`Passes`). Spaces and tabs may stand before any
  token (`Spaced`), and only what comes behind a scalar has to be a delimiter (`Behind`).

  Proved: scalars are read back as items and as keys (`scalar?_word`, `key?_word`).
-/
import Sketchwork.Proofs.Outline.Inline

namespace Sketchwork.Written

open Text (isBlank width)

/-! ## Gaps -/

/-- Spaces and tabs. -/
def IsGap (gap : List Char) : Prop :=
  ∀ c ∈ gap, c = ' ' ∨ c = '\t'

theorem IsGap.append {a b : List Char} (ha : IsGap a) (hb : IsGap b) : IsGap (a ++ b) := by
  intro c hc
  rcases List.mem_append.mp hc with hc | hc
  · exact ha c hc
  · exact hb c hc

theorem isGap_spaces (n : Nat) : IsGap (List.replicate n ' ') :=
  fun _ hc => .inl (List.eq_of_mem_replicate hc)

theorem isBlank_of_mem_gap {gap : List Char} (hgap : IsGap gap) : ∀ c ∈ gap, isBlank c = true := by
  intro c hc
  rcases hgap c hc with rfl | rfl
  · decide
  · decide

theorem IsGap.not_mem {gap : List Char} (hgap : IsGap gap) {x : Char} (hx : x ∉ [' ', '\t']) : x ∉ gap := by
  intro hm
  exact hx (by simpa using hgap x hm)

theorem skipSpaces_gap {gap r : List Char} (hgap : IsGap gap) (hr : Layout.Solid r) (pos : Nat) :
    Place.skipSpaces ⟨pos, gap ++ r⟩ = ⟨pos + width gap, r⟩ := by
  have hmem : ∀ c ∈ gap, (c == ' ' || c == '\t') = true := by
    intro c hc
    rcases hgap c hc with rfl | rfl <;> rfl
  have hstop : ∀ c ∈ r.head?, (c == ' ' || c == '\t') = false := by
    intro c hc
    rw [Bool.eq_false_iff]
    intro h
    simp only [Bool.or_eq_true, beq_iff_eq] at h
    rcases h with rfl | rfl <;> cases hr _ hc
  obtain ⟨htake, hdrop⟩ := Text.takeWhile_dropWhile_append hmem hstop
  unfold Place.skipSpaces Place.skipWhile
  rw [htake, hdrop]

/-! ## Scalars -/

/-- The scanner of plain scalars, of keys or of items, takes a word whole, and it is between
    brackets and outside quotes behind it. -/
def Passes (isKey : Bool) (w : List Char) : Prop :=
  ∃ q, ∀ r, Flow.takePlain isKey 0 none ' ' (w ++ r) = w ++ Flow.takePlain isKey 0 none q r

/-- What may not begin a plain scalar. -/
def reserved : List Char :=
  ['[', ']', '\x7b', '\x7d', ',', '"', '\'', ':']

theorem isReserved_eq_false {c : Char} (hc : c ∉ reserved) : Flow.isReserved c = false := by
  rw [Bool.eq_false_iff]
  intro h
  exact hc (by simpa [Flow.isReserved, reserved] using h)

structure IsPlain (isKey : Bool) (w : List Char) : Prop where
  first : ∃ c cs, w = c :: cs ∧ c ∉ reserved ∧ isBlank c = false
  last : ∀ c ∈ w.getLast?, isBlank c = false
  passes : Passes isKey w

theorem isPlain_tilde : IsPlain false ['~'] :=
  ⟨⟨'~', [], rfl, by decide, by decide⟩, by rintro _ ⟨⟩; decide, '~', fun r => by simp [Flow.takePlain, Flow.opensQuote]⟩

/-- A scalar that is a key, or one that is an item or a value. -/
inductive Word (isKey : Bool) where
  | double (q : Layout.Quoted)
  /-- Between single quotes, with those of the content doubled. -/
  | single (content : List Char)
  | plain (w : List Char) (h : IsPlain isKey w)

/-- A character between single quotes. -/
def singleChar (c : Char) : List Char :=
  if c = '\'' then ['\'', '\''] else [c]

namespace Word

variable {isKey : Bool}

def text : Word isKey → List Char
  | double q => q.text
  | single content => '\'' :: (content.flatMap singleChar ++ ['\''])
  | plain w _ => w

/-- The key that a scalar is. -/
def key : Word isKey → String
  | double q => q.value
  | single content => String.ofList content
  | plain w _ => String.ofList w

/-- The value that a scalar is. -/
def literal : Word isKey → Literal
  | double q => .text q.value
  | single content => .text (String.ofList content)
  | plain w _ => (Flow.resolve w (.point 0)).literal

/-- A scalar begins with no blank and with nothing that is a token of its own. -/
theorem exists_cons (w : Word isKey) :
    ∃ c cs, w.text = c :: cs ∧ isBlank c = false ∧ c ∉ ['[', ']', '\x7b', '\x7d', ',', ':'] := by
  cases w with
  | double q => exact ⟨'"', _, rfl, rfl, by decide⟩
  | single content => exact ⟨'\'', _, rfl, rfl, by decide⟩
  | plain w h =>
    obtain ⟨c, cs, hc, hreserved, hblank⟩ := h.first
    refine ⟨c, cs, hc, hblank, ?_⟩
    intro hmem
    have hsub : ['[', ']', '\x7b', '\x7d', ',', ':'] ⊆ reserved := by decide
    exact hreserved (hsub hmem)

theorem solid (w : Word isKey) (r : List Char) : Layout.Solid (w.text ++ r) := by
  obtain ⟨c, cs, hc, hblank, -⟩ := w.exists_cons
  rw [hc]
  exact .cons hblank

end Word

/-- Behind a key comes a colon, and behind an item a comma or a bracket. -/
def Behind (isKey : Bool) (r : List Char) : Prop :=
  ∃ gap d r', IsGap gap ∧ r = gap ++ d :: r' ∧ if isKey then d = ':' else Layout.Delimiter d

variable {isKey : Bool} {r : List Char}

theorem takePlain_behind (hr : Behind isKey r) (previous : Char) :
    ∃ gap, IsGap gap ∧ Flow.takePlain isKey 0 none previous r = gap ∧ ∃ d r', r = gap ++ d :: r' := by
  obtain ⟨gap, d, r', hgap, rfl, hd⟩ := hr
  refine ⟨gap, hgap, ?_, d, r', rfl⟩
  induction gap generalizing previous with
  | nil =>
    cases isKey with
    | true =>
      obtain rfl : d = ':' := by simpa using hd
      simp [Flow.takePlain, Flow.opensQuote]
    | false =>
      have hdelimiter : Layout.Delimiter d := by simpa using hd
      rcases hdelimiter with rfl | rfl | rfl <;> simp [Flow.takePlain, Flow.opensQuote]
  | cons c gap ih =>
    have hc := hgap c List.mem_cons_self
    have hmore := ih c (fun x hx => hgap x (List.mem_cons_of_mem _ hx))
    rcases hc with rfl | rfl
    · simp [Flow.takePlain, Flow.opensQuote, hmore]
    · simp [Flow.takePlain, Flow.opensQuote, hmore]

/-- Where a scalar of the kind is looked for. -/
def context (isKey : Bool) : Flow.Context :=
  if isKey then .key else .item

theorem plain?_of_isPlain {w : List Char} (hw : IsPlain isKey w) (hr : Behind isKey r) (pos : Nat) :
    Flow.plain? (context isKey) ⟨pos, w ++ r⟩ = some (w, ⟨pos + width w, r⟩) := by
  obtain ⟨c, cs, hc, hreserved, -⟩ := hw.first
  obtain ⟨q, hq⟩ := hw.passes
  obtain ⟨gap, hgap, htake, -⟩ := takePlain_behind hr q
  have hwhole : Flow.takePlain isKey 0 none ' ' (w ++ r) = w ++ gap := by
    rw [hq, htake]
  have htrim : Text.trimEnd (w ++ gap) = w := Layout.trimEnd_append (isBlank_of_mem_gap hgap) hw.last
  have hhead : (((w ++ r).head?.map Flow.isReserved).getD false) = false := by
    rw [hc, List.cons_append, List.head?_cons]
    exact isReserved_eq_false hreserved
  have hne : w.isEmpty = false := by
    rw [hc]
    rfl
  unfold Flow.plain?
  dsimp only
  rw [hhead, if_neg Bool.false_ne_true]
  cases isKey with
  | true => simp [context, hwhole, htrim, hne]
  | false => simp [context, hwhole, htrim, hne]

/-- Behind a closing quote comes no other one. -/
theorem head?_behind (hr : Behind isKey r) : ∀ c ∈ r.head?, c ≠ '\'' := by
  obtain ⟨gap, d, r', hgap, rfl, hd⟩ := hr
  intro c hc
  cases gap with
  | nil =>
    obtain rfl : d = c := by simpa using hc
    cases isKey with
    | true =>
      obtain rfl : d = ':' := by simpa using hd
      decide
    | false =>
      have hdelimiter : Layout.Delimiter d := by simpa using hd
      rcases hdelimiter with rfl | rfl | rfl <;> decide
  | cons x gap =>
    obtain rfl : x = c := by simpa using hc
    rcases hgap x List.mem_cons_self with rfl | rfl <;> decide

/-- Between single quotes the text goes on behind a content as at its beginning. -/
theorem doubled_append (content r : List Char) : ∀ pos, ∃ q,
    Quoted.doubled '\'' pos (content.flatMap singleChar ++ r) = content.foldr Quoted.Scan.cons (Quoted.doubled '\'' q r) := by
  induction content with
  | nil => exact fun pos => ⟨pos, rfl⟩
  | cons c content ih =>
    intro pos
    by_cases hquote : c = '\''
    · subst hquote
      obtain ⟨q, hq⟩ := ih (pos + 2)
      refine ⟨q, ?_⟩
      rw [List.flatMap_cons, List.append_assoc, singleChar, if_pos rfl, List.cons_append, List.singleton_append,
        Quoted.doubled.eq_def]
      simp [hq]
    · obtain ⟨q, hq⟩ := ih (pos + c.utf8Size)
      refine ⟨q, ?_⟩
      rw [List.flatMap_cons, List.append_assoc, singleChar, if_neg hquote, List.singleton_append,
        Quoted.doubled.eq_def]
      simp [hquote, hq]

theorem doubled_content (content : List Char) (hr : ∀ c ∈ r.head?, c ≠ '\'') (pos : Nat) : ∃ q,
    Quoted.doubled '\'' pos (content.flatMap singleChar ++ '\'' :: r) = .closed content ⟨q, r⟩ := by
  obtain ⟨q, hq⟩ := doubled_append content ('\'' :: r) pos
  have hend : Quoted.doubled '\'' q ('\'' :: r) = .closed [] ⟨q + 1, r⟩ := by
    rw [Quoted.doubled.eq_def]
    cases r with
    | nil => rfl
    | cons d r => simp [show d ≠ '\'' from hr d rfl]
  have hcons (content : List Char) : content.foldr Quoted.Scan.cons (.closed [] ⟨q + 1, r⟩) = .closed content ⟨q + 1, r⟩ := by
    induction content with
    | nil => rfl
    | cons c content ih => rw [List.foldr_cons, ih, Quoted.Scan.cons]
  exact ⟨q + 1, by rw [hq, hend, hcons]⟩

/-- No content alone closes the quote. -/
theorem doubled_unclosed (content : List Char) (pos : Nat) : ∃ q,
    Quoted.doubled '\'' pos (content.flatMap singleChar) = .unclosed q := by
  obtain ⟨q, hq⟩ := doubled_append content [] pos
  have hcons (content : List Char) : content.foldr Quoted.Scan.cons (.unclosed q) = .unclosed q := by
    induction content with
    | nil => rfl
    | cons c content ih => rw [List.foldr_cons, ih]; rfl
  rw [List.append_nil] at hq
  exact ⟨q, hq.trans (hcons content)⟩

theorem quoted?_single (content : List Char) (hr : ∀ c ∈ r.head?, c ≠ '\'') (pos : Nat) : ∃ q,
    Flow.quoted? ⟨pos, '\'' :: (content.flatMap singleChar ++ '\'' :: r)⟩ = .ok (some (String.ofList content, ⟨q, r⟩)) := by
  obtain ⟨q, hq⟩ := doubled_content content hr (pos + 1)
  exact ⟨q, by simp only [Flow.quoted?, hq]⟩

theorem quoted?_unclosed (content : List Char) (pos : Nat) : ∃ span,
    Flow.quoted? ⟨pos, '\'' :: content.flatMap singleChar⟩ = .error ⟨.openScalar '\'', span⟩ := by
  obtain ⟨q, hq⟩ := doubled_unclosed content (pos + 1)
  exact ⟨.between pos q, by simp only [Flow.quoted?, hq]⟩

/-- A plain scalar begins with no quote. -/
theorem quoted?_of_isPlain {w : List Char} (h : IsPlain isKey w) (pos : Nat) (r : List Char) :
    Flow.quoted? ⟨pos, w ++ r⟩ = .ok none := by
  obtain ⟨c, cs, hc, hreserved, -⟩ := h.first
  rw [hc]
  unfold Flow.quoted?
  dsimp only [List.cons_append]
  split
  · rename_i heq
    cases heq
    exact absurd (by decide) hreserved
  · rename_i heq
    cases heq
    exact absurd (by decide) hreserved
  · rfl

/-- A scalar that is plain, or what is found between its quotes. -/
theorem quoted?_cases (w : Word isKey) (hr : Behind isKey r) (pos : Nat) :
    (∃ word h, w = .plain word h ∧ Flow.quoted? ⟨pos, w.text ++ r⟩ = .ok none) ∨
      ∃ q, Flow.quoted? ⟨pos, w.text ++ r⟩ = .ok (some (w.key, ⟨q, r⟩)) ∧ w.literal = .text w.key := by
  cases w with
  | double quoted =>
    obtain ⟨q, hq⟩ := Layout.quoted?_text quoted pos r
    exact .inr ⟨q, hq, rfl⟩
  | single content =>
    obtain ⟨q, hq⟩ := quoted?_single content (head?_behind hr) pos
    have htext : (Word.single content : Word isKey).text ++ r = '\'' :: (content.flatMap singleChar ++ '\'' :: r) := by
      simp [Word.text]
    exact .inr ⟨q, by rw [htext, hq]; rfl, rfl⟩
  | plain word h => exact .inl ⟨word, h, rfl, quoted?_of_isPlain h pos r⟩

theorem literal_resolve (w : List Char) (span span' : Span) :
    (Flow.resolve w span).literal = (Flow.resolve w span').literal := by
  unfold Flow.resolve
  dsimp only
  split
  · rfl
  split
  · rfl
  split
  · rfl
  split
  · rfl
  · rfl

/-- A scalar is read back as an item. -/
theorem scalar?_word (w : Word false) {r : List Char} (hr : Behind false r) (pos : Nat) :
    ∃ item q, Flow.scalar? .item ⟨pos, w.text ++ r⟩ = .ok (some (item, ⟨q, r⟩)) ∧ item.literal = w.literal := by
  rcases quoted?_cases w hr pos with ⟨word, h, rfl, hquoted⟩ | ⟨q, hquoted, hliteral⟩
  · have hplain : Flow.plain? .item ⟨pos, word ++ r⟩ = some (word, ⟨pos + width word, r⟩) := plain?_of_isPlain h hr pos
    refine ⟨Flow.resolve word (.between pos (pos + width word)), pos + width word, ?_, literal_resolve ..⟩
    unfold Flow.scalar?
    rw [hquoted]
    show Except.ok ((Flow.plain? .item ⟨pos, word ++ r⟩).map _) = _
    rw [hplain]
    rfl
  · refine ⟨.text w.key true (.between pos q), q, ?_, hliteral.symm⟩
    unfold Flow.scalar?
    rw [hquoted]
    rfl

/-- A scalar is read back as a key. -/
theorem key?_word (w : Word true) {r : List Char} (hr : Behind true r) (pos : Nat) :
    ∃ span q, Flow.key? ⟨pos, w.text ++ r⟩ = .ok (some (⟨w.key, span⟩, ⟨q, r⟩)) := by
  rcases quoted?_cases w hr pos with ⟨word, h, rfl, hquoted⟩ | ⟨q, hquoted, -⟩
  · have hplain : Flow.plain? .key ⟨pos, word ++ r⟩ = some (word, ⟨pos + width word, r⟩) := plain?_of_isPlain h hr pos
    refine ⟨.between pos (pos + width word), pos + width word, ?_⟩
    unfold Flow.key?
    rw [hquoted]
    show Except.ok ((Flow.plain? .key ⟨pos, word ++ r⟩).map _) = _
    rw [hplain]
    rfl
  · refine ⟨.between pos q, q, ?_⟩
    unfold Flow.key?
    rw [hquoted]
    rfl

/-! ## Tokens -/

inductive Bracket where
  | square | curly

inductive Token where
  | opening (b : Bracket)
  | closing (b : Bracket)
  | comma
  | colon
  | word {isKey : Bool} (w : Word isKey)

def Bracket.open_ : Bracket → Char
  | square => '['
  | curly => '\x7b'

def Bracket.close : Bracket → Char
  | square => ']'
  | curly => '\x7d'

def Token.text : Token → List Char
  | opening b => [b.open_]
  | closing b => [b.close]
  | comma => [',']
  | colon => [':']
  | word w => w.text

theorem Token.solid (t : Token) (r : List Char) : Layout.Solid (t.text ++ r) := by
  cases t with
  | opening b => cases b <;> exact .cons rfl
  | closing b => cases b <;> exact .cons rfl
  | comma => exact .cons rfl
  | colon => exact .cons rfl
  | word w => exact w.solid r

/-- A text of tokens in order, each behind a gap that may be empty. -/
inductive Spaced : List Token → List Char → Prop
  | nil : Spaced [] []
  | cons {t : Token} {ts : List Token} {gap s : List Char} (hgap : IsGap gap) (h : Spaced ts s) :
      Spaced (t :: ts) (gap ++ (t.text ++ s))

namespace Spaced

variable {a b ts : List Token} {t : Token} {s s' : List Char}

theorem append (ha : Spaced a s) (hb : Spaced b s') : Spaced (a ++ b) (s ++ s') := by
  induction ha with
  | nil => exact hb
  | @cons t ts gap s hgap _ ih =>
    rw [List.append_assoc, List.append_assoc]
    exact .cons hgap ih

theorem exists_of_append (h : Spaced (a ++ b) s) : ∃ s₁ s₂, s = s₁ ++ s₂ ∧ Spaced a s₁ ∧ Spaced b s₂ := by
  induction a generalizing s with
  | nil => exact ⟨[], s, rfl, .nil, h⟩
  | cons t a ih =>
    cases h with
    | @cons _ _ gap s hgap h =>
      obtain ⟨s₁, s₂, rfl, h₁, h₂⟩ := ih h
      exact ⟨gap ++ (t.text ++ s₁), s₂, by simp, .cons hgap h₁, h₂⟩

theorem exists_of_cons (h : Spaced (t :: ts) s) : ∃ gap s', s = gap ++ (t.text ++ s') ∧ IsGap gap ∧ Spaced ts s' := by
  cases h with
  | cons hgap h => exact ⟨_, _, rfl, hgap, h⟩

/-- A text that begins with no blank begins with its first token. -/
theorem exists_of_solid (h : Spaced (t :: ts) s) (hfirst : Layout.Solid s) : ∃ s', s = t.text ++ s' ∧ Spaced ts s' := by
  obtain ⟨gap, s', rfl, hgap, hs'⟩ := h.exists_of_cons
  cases gap with
  | nil => exact ⟨s', rfl, hs'⟩
  | cons x gap =>
    have hblank := isBlank_of_mem_gap hgap x List.mem_cons_self
    rw [hfirst x rfl] at hblank
    cases hblank

/-- What is in no token and in no gap is not in the text. -/
theorem not_mem (h : Spaced ts s) {x : Char} (hx : x ∉ [' ', '\t']) (hts : ∀ t ∈ ts, x ∉ t.text) : x ∉ s := by
  induction h with
  | nil => exact List.not_mem_nil
  | cons hgap _ ih =>
    obtain ⟨ht, hmore⟩ := List.forall_mem_cons.mp hts
    simp only [List.mem_append, not_or]
    exact ⟨hgap.not_mem hx, ht, ih hmore⟩

/-- One more gap in front of the first token. -/
theorem gap {gap : List Char} (hgap : IsGap gap) (hts : ts ≠ []) (h : Spaced ts s) : Spaced ts (gap ++ s) := by
  cases h with
  | nil => exact absurd rfl hts
  | cons hgap' h =>
    rw [← List.append_assoc]
    exact .cons (hgap.append hgap') h

end Spaced

end Sketchwork.Written
