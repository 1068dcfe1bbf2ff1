/-
  Sketchwork.Proofs.Outline.Words — words and numbers are read back.

  A plain scalar ends where the line ends, or in a collection before the next comma or closing
  bracket; `Bounded` says that what follows lets it end.

  Proved: a word that is written is taken whole and nothing else with it (`plain?_word`), and it
  stands for the scalar that it spells (`literal_resolve`); a numeral for the double nearest
  to it (`Numeral.number?_text`).
-/
import Mathlib.Data.List.DropRight
import Sketchwork.Proofs.Outline.Layout

namespace Sketchwork.Layout

open Text (isBlank width)

/-! ## Blanks -/

/-- A text that begins with no blank. -/
def Solid (cs : List Char) : Prop :=
  ∀ c ∈ cs.head?, isBlank c = false

theorem Solid.cons {c : Char} {cs : List Char} (h : isBlank c = false) : Solid (c :: cs) := by
  rintro _ ⟨⟩
  exact h

theorem Solid.append {a : List Char} (h : Solid a) (ha : a ≠ []) (b : List Char) : Solid (a ++ b) := by
  cases a with
  | nil => exact absurd rfl ha
  | cons c a => exact h

@[simp] theorem length_spaces (n : Nat) : (spaces n).length = n := List.length_replicate ..

theorem spaces_succ (n : Nat) : spaces (n + 1) = ' ' :: spaces n := rfl

theorem isBlank_of_mem_spaces {n : Nat} {c : Char} (h : c ∈ spaces n) : isBlank c = true := by
  rw [List.eq_of_mem_replicate h]
  rfl

theorem skipSpaces_spaces (n pos : Nat) {r : List Char} (hr : Solid r) :
    ∃ q, Place.skipSpaces ⟨pos, spaces n ++ r⟩ = ⟨q, r⟩ := by
  refine ⟨_, congrArg (Place.mk _) ?_⟩
  induction n with
  | zero =>
    cases r with
    | nil => rfl
    | cons c r =>
      have hc := hr c rfl
      have h1 : (c == ' ') = false := by rw [beq_eq_false_iff_ne]; rintro rfl; cases hc
      have h2 : (c == '\t') = false := by rw [beq_eq_false_iff_ne]; rintro rfl; cases hc
      simp [spaces, h1, h2]
  | succ n ih => simpa [spaces_succ] using ih

/-- What is dropped from an end is dropped from a longer text that stops before. -/
theorem dropEndWhile_append {p : Char → Bool} {s : List Char} (hs : ∀ c ∈ s.getLast?, p c = false) (t : List Char) :
    Text.dropEndWhile p (s ++ t) = s ++ Text.dropEndWhile p t := by
  have hs' : s.reverse.dropWhile p = s.reverse := by
    cases hr : s.reverse with
    | nil => rfl
    | cons c r =>
      have : s.getLast? = some c := by rw [List.getLast?_eq_head?_reverse, hr]; rfl
      rw [List.dropWhile_cons_of_neg (by simp [hs c this])]
  unfold Text.dropEndWhile
  rw [List.reverse_append, List.dropWhile_append]
  split
  · rename_i h
    rw [hs', List.isEmpty_iff.mp h, List.reverse_reverse, List.reverse_nil, List.append_nil]
  · rw [List.reverse_append, List.reverse_reverse]

/-- The blanks at an end are dropped behind a character that is none. -/
theorem trimEnd_append_cons (a : List Char) {c : Char} (hc : isBlank c = false) (b : List Char) :
    Text.trimEnd (a ++ c :: b) = a ++ c :: Text.trimEnd b := by
  have hlast : ∀ x ∈ (a ++ [c]).getLast?, isBlank x = false := by
    rw [List.getLast?_concat]
    rintro _ ⟨⟩
    exact hc
  rw [List.append_cons, Text.trimEnd, dropEndWhile_append hlast, ← List.append_cons]
  rfl

theorem trimEnd_append {s t : List Char} (ht : ∀ c ∈ t, isBlank c = true) (hs : ∀ c ∈ s.getLast?, isBlank c = false) :
    Text.trimEnd (s ++ t) = s := by
  have ht' : Text.dropEndWhile isBlank t = [] := List.rdropWhile_eq_nil_iff.mpr ht
  rw [Text.trimEnd, dropEndWhile_append hs, ht', List.append_nil]

theorem trimEnd_eq_self {s : List Char} (hs : ∀ c ∈ s.getLast?, isBlank c = false) : Text.trimEnd s = s := by
  simpa using trimEnd_append (t := []) (by simp) hs

/-! ## Words -/

/-- The characters of numbers and of the words for null and the booleans. -/
def isWordChar (c : Char) : Bool :=
  c.isAlphanum || c == '~' || c == '.' || c == '+' || c == '-'

theorem isBlank_of_isAlphanum {c : Char} (h : c.isAlphanum = true) : isBlank c = false := by
  change (decide ('A'.val ≤ c.val ∧ c.val ≤ 'Z'.val) || decide ('a'.val ≤ c.val) && decide (c.val ≤ 'z'.val) ||
    decide ('0'.val ≤ c.val) && decide (c.val ≤ '9'.val)) = true at h
  simp only [Bool.or_eq_true, Bool.and_eq_true, decide_eq_true_eq, UInt32.le_iff_toNat_le, Char.reduceVal,
    UInt32.reduceToNat] at h
  have hn : c.toNat = c.val.toNat := rfl
  simp only [isBlank, hn, Bool.or_eq_false_iff, Bool.and_eq_false_iff, decide_eq_false_iff_not, beq_eq_false_iff_ne]
  omega

theorem isBlank_of_isWordChar {c : Char} (h : isWordChar c = true) : isBlank c = false := by
  simp only [isWordChar, Bool.or_eq_true, beq_iff_eq] at h
  rcases h with (((h | rfl) | rfl) | rfl) | rfl
  · exact isBlank_of_isAlphanum h
  all_goals rfl

structure IsWord (w : List Char) : Prop where
  ne_nil : w ≠ []
  chars : ∀ c ∈ w, isWordChar c = true

namespace IsWord

variable {w : List Char} (hw : IsWord w)
include hw

theorem not_blank_getLast? : ∀ c ∈ w.getLast?, isBlank c = false :=
  fun c hc => isBlank_of_isWordChar (hw.chars c (List.mem_of_getLast? hc))

end IsWord

/-- What ends an item of a collection: a comma or a closing bracket. -/
def Delimiter (d : Char) : Prop :=
  d = ',' ∨ d = ']' ∨ d = '\x7d'

theorem takePlain_append {s : List Char} (hs : ∀ c ∈ s, isWordChar c = true ∨ c = ' ') {d : Char} (hd : Delimiter d)
    (previous : Char) (r : List Char) : Flow.takePlain false 0 none previous (s ++ d :: r) = s := by
  induction s generalizing previous with
  | nil =>
    rcases hd with rfl | rfl | rfl <;> simp [Flow.takePlain, Flow.opensQuote]
  | cons c s ih =>
    have hc := hs c List.mem_cons_self
    have ne {x : Char} (hx : isWordChar x = false) (hx' : x ≠ ' ') : (c == x) = false := by
      rw [beq_eq_false_iff_ne]
      rintro rfl
      rcases hc with hc | hc
      · rw [hx] at hc; cases hc
      · exact hx' hc
    rw [List.cons_append, Flow.takePlain]
    simp [Flow.opensQuote, ne (x := '"') rfl (by decide), ne (x := '\'') rfl (by decide), ne (x := '(') rfl (by decide),
      ne (x := '[') rfl (by decide), ne (x := '\x7b') rfl (by decide), ne (x := ')') rfl (by decide),
      ne (x := ']') rfl (by decide), ne (x := '\x7d') rfl (by decide), ne (x := ',') rfl (by decide),
      ih fun c hc => hs c (List.mem_cons_of_mem _ hc)]

/-- What may follow a value: the end of a line, or in a collection spaces and a delimiter. -/
inductive Bounded : Flow.Context → List Char → Prop
  | line : Bounded .block []
  | item (n : Nat) {d : Char} (hd : Delimiter d) (r : List Char) : Bounded .item (spaces n ++ d :: r)

theorem isReserved_of_isWordChar {c : Char} (h : isWordChar c = true) : Flow.isReserved c = false := by
  rw [Bool.eq_false_iff]
  intro hr
  have hmem : c ∈ ['[', ']', '\x7b', '\x7d', ',', '"', '\'', ':'] := by simpa [Flow.isReserved] using hr
  simp only [List.mem_cons, List.not_mem_nil, or_false] at hmem
  rcases hmem with rfl | rfl | rfl | rfl | rfl | rfl | rfl | rfl <;> cases h

theorem plain?_word {w r : List Char} (hw : IsWord w) {context : Flow.Context} (hr : Bounded context r) (pos : Nat) :
    Flow.plain? context ⟨pos, w ++ r⟩ = some (w, ⟨pos + width w, r⟩) := by
  obtain ⟨c, cs, rfl⟩ := List.exists_cons_of_ne_nil hw.ne_nil
  have hfree := isReserved_of_isWordChar (hw.chars c List.mem_cons_self)
  unfold Flow.plain?
  cases hr with
  | line => simp [hfree, trimEnd_eq_self hw.not_blank_getLast?]
  | @item n d hd r =>
    have htake : Flow.takePlain false 0 none ' ' ((c :: cs) ++ (spaces n ++ d :: r)) = (c :: cs) ++ spaces n := by
      rw [← List.append_assoc]
      refine takePlain_append (fun x hx => ?_) hd ' ' r
      rcases List.mem_append.mp hx with hx | hx
      · exact .inl (hw.chars x hx)
      · exact .inr (List.eq_of_mem_replicate hx)
    have htrim := trimEnd_append (fun x hx => isBlank_of_mem_spaces hx) hw.not_blank_getLast? (t := spaces n)
    simp only [List.cons_append] at htake htrim
    simp [hfree, htake, htrim]

/-! ## Numerals -/

theorem toLower_of_isDigit {c : Char} (h : c.isDigit = true) : c.toLower = c := by
  simp only [Char.isDigit, Bool.and_eq_true, decide_eq_true_eq, ge_iff_le, UInt32.le_iff_toNat_le, Char.reduceVal,
    UInt32.reduceToNat] at h
  have hupper : ¬ (c.val ≥ 'A'.val ∧ c.val ≤ 'Z'.val) := by
    simp only [ge_iff_le, UInt32.le_iff_toNat_le, Char.reduceVal, UInt32.reduceToNat]
    omega
  exact dif_neg hupper

/-- A sign is taken off what begins with a digit or a point. -/
theorem Sign.spanSign_append (s : Sign) {cs : List Char} (h : ∀ c ∈ cs.head?, c.isDigit = true ∨ c = '.') :
    Decimal.spanSign (s.text ++ cs) = (s.negative, cs) := by
  cases s with
  | plus | minus => rfl
  | none =>
    show Decimal.spanSign cs = (false, cs)
    unfold Decimal.spanSign
    split
    · rcases h _ rfl with h | h <;> cases h
    · rcases h _ rfl with h | h <;> cases h
    · rfl

namespace Numeral

variable (n : Numeral)

/-- A numeral without its sign begins with a digit or a point. -/
def body : List Char :=
  n.whole.chars ++ (n.fraction ++ n.exponent.elim [] Exponent.text)

theorem exists_cons_of_body : ∃ c cs, n.body = c :: cs ∧ (c.isDigit = true ∨ c = '.' ∧ ∃ d ds, cs = d :: ds ∧ d.isDigit = true) := by
  unfold body
  cases hw : n.whole.chars with
  | cons c cs => exact ⟨c, _, rfl, .inl (n.whole.isDigit c (hw ▸ List.mem_cons_self))⟩
  | nil =>
    rcases n.digit with h | ⟨ds, hp, hne⟩
    · exact absurd hw h
    · obtain ⟨d, ds', hd⟩ := List.exists_cons_of_ne_nil hne
      refine ⟨'.', ds.chars ++ n.exponent.elim [] Exponent.text, by rw [fraction, hp]; rfl, .inr ⟨rfl, d, ds' ++ n.exponent.elim [] Exponent.text, ?_, ?_⟩⟩
      · rw [hd]; rfl
      · exact ds.isDigit d (hd ▸ List.mem_cons_self)

theorem spanSign_text : Decimal.spanSign n.text = (n.sign.negative, n.body) := by
  obtain ⟨c, cs, hb, hc⟩ := n.exists_cons_of_body
  have hhead : ∀ d ∈ n.body.head?, d.isDigit = true ∨ d = '.' := by
    rw [hb]
    rintro _ ⟨⟩
    exact hc.imp_right And.left
  exact n.sign.spanSign_append hhead

theorem head?_exponent : ∀ c ∈ (n.exponent.elim [] Exponent.text).head?, c = 'e' ∨ c = 'E' := by
  cases n.exponent with
  | none => nofun
  | some e => rintro _ ⟨⟩; exact e.isMark

theorem exponent?_text : Decimal.exponent? (n.exponent.elim [] Exponent.text) = some (n.exponent.elim 0 Exponent.value) := by
  cases n.exponent with
  | none => rfl
  | some e =>
    have hsign : Decimal.spanSign (e.sign.text ++ e.size.chars) = (e.sign.negative, e.size.chars) :=
      e.sign.spanSign_append fun d hd => .inl (e.size.isDigit d (List.mem_of_mem_head? hd))
    have hspan : Decimal.spanDigits e.size.chars = (e.size.chars, []) := by
      simpa using Decimal.spanDigits_exact (b := []) e.size.isDigit nofun
    show Decimal.exponent? e.text = some e.value
    simp [Exponent.text, Decimal.exponent?, e.isMark, hsign, hspan, e.size_ne_nil, Exponent.value]

/-- The digits behind the point, if a point comes next. -/
def spanPlaces (cs : List Char) : List Char × List Char :=
  match cs with
  | '.' :: rest => Decimal.spanDigits rest
  | _ => ([], cs)

theorem isDigit_head?_exponent : ∀ c ∈ (n.exponent.elim [] Exponent.text).head?, c.isDigit = false := by
  intro c hc
  rcases n.head?_exponent c hc with rfl | rfl <;> rfl

theorem spanPlaces_fraction :
    spanPlaces (n.fraction ++ n.exponent.elim [] Exponent.text) = (n.placed, n.exponent.elim [] Exponent.text) := by
  unfold fraction placed
  cases n.places with
  | some ds => exact Decimal.spanDigits_exact ds.isDigit n.isDigit_head?_exponent
  | none =>
    show spanPlaces (n.exponent.elim [] Exponent.text) = _
    unfold spanPlaces
    split
    · rename_i h
      rcases n.head?_exponent '.' (by rw [h]; rfl) with h | h <;> cases h
    · rfl

theorem read?_text : Decimal.Literal.read? n.text = some n.literal := by
  obtain ⟨c, cs, hb, hc⟩ := n.exists_cons_of_body
  have hlower : c.toLower = c := by
    rcases hc with hc | ⟨rfl, -⟩
    · exact toLower_of_isDigit hc
    · rfl
  have hne {x : Char} {xs : List Char} (hx : x.isDigit = false) (hx' : x ≠ '.') : ¬ n.body.map Char.toLower = x :: xs := by
    intro h
    rw [hb, List.map_cons, hlower] at h
    cases h
    rcases hc with hc | ⟨hc, -⟩
    · rw [hx] at hc; cases hc
    · exact hx' hc
  have hwhole : Decimal.spanDigits n.body = (n.whole.chars, n.fraction ++ n.exponent.elim [] Exponent.text) := by
    refine Decimal.spanDigits_exact n.whole.isDigit ?_
    unfold fraction
    cases n.places with
    | none => exact n.isDigit_head?_exponent
    | some ds => rintro _ ⟨⟩; rfl
  have hdigit : ¬ (n.whole.chars.isEmpty && n.placed.isEmpty) = true := by
    rcases n.digit with h | ⟨ds, hp, h⟩
    · simp [h]
    · simp [placed, hp, h]
  unfold Decimal.Literal.read?
  simp only [spanSign_text]
  rw [if_neg (hne rfl (by decide)), if_neg (by simp [hne (x := 'i') rfl (by decide)])]
  simp only [hwhole]
  let finish (p : List Char × List Char) : Option Decimal.Literal :=
    if (n.whole.chars.isEmpty && p.1.isEmpty) = true then none
    else (Decimal.exponent? p.2).map fun e =>
      .finite n.sign.negative (Decimal.ofDigits (n.whole.chars ++ p.1)) (e - p.1.length)
  refine (congrArg finish n.spanPlaces_fraction).trans ?_
  simp only [finish, exponent?_text, if_neg hdigit]
  rfl

theorem number?_text : Flow.number? n.text = some n.value := by
  obtain ⟨c, cs, hb, hc⟩ := n.exists_cons_of_body
  unfold Flow.number?
  simp only [spanSign_text]
  refine (if_pos ?_).trans ?_
  · rw [hb]
    rcases hc with hc | ⟨rfl, d, ds, rfl, hd⟩
    · split
      · rename_i h; cases h; cases hc
      · rename_i h; cases h; exact hc
      · rename_i h; cases h
    · exact hd
  · rw [Decimal.read?, read?_text]
    rfl

theorem isWord_text : IsWord n.text := by
  obtain ⟨c, cs, hb, -⟩ := n.exists_cons_of_body
  have hsign : ∀ s : Sign, ∀ x ∈ s.text, isWordChar x = true := by
    intro s x hx
    cases s with
    | none => cases hx
    | plus | minus => cases List.mem_singleton.mp hx; rfl
  have hdigits (ds : Digits) : ∀ x ∈ ds.chars, isWordChar x = true := by
    intro x hx
    simp [isWordChar, Char.isAlphanum, ds.isDigit x hx]
  refine ⟨by simp [text, show n.whole.chars ++ (n.fraction ++ n.exponent.elim [] Exponent.text) = c :: cs from hb], ?_⟩
  intro x hx
  simp only [text, List.mem_append] at hx
  rcases hx with hx | hx | hx | hx
  · exact hsign _ x hx
  · exact hdigits _ x hx
  · unfold fraction at hx
    cases hp : n.places with
    | none => rw [hp] at hx; cases hx
    | some ds =>
      rw [hp] at hx
      rcases List.mem_cons.mp hx with rfl | hx
      · rfl
      · exact hdigits _ x hx
  · cases he : n.exponent with
    | none => rw [he] at hx; cases hx
    | some e =>
      rw [he] at hx
      rcases List.mem_cons.mp hx with rfl | hx
      · rcases e.isMark with h | h <;> rw [h] <;> rfl
      · rcases List.mem_append.mp hx with hx | hx
        · exact hsign _ x hx
        · exact hdigits _ x hx

end Numeral

/-! ## Plain scalars -/

theorem resolve_of_number? {word : List Char} {x : Float} (h : Flow.number? word = some x) (span : Span) :
    Flow.resolve word span = .number x span := by
  have hne (w : String) (hw : Flow.number? w.toList = none) : (String.ofList word == w) = false := by
    rw [beq_eq_false_iff_ne]
    rintro rfl
    rw [String.toList_ofList, h] at hw
    cases hw
  unfold Flow.resolve
  simp [h, hne "~" rfl, hne "null" rfl, hne "Null" rfl, hne "NULL" rfl, hne "true" rfl, hne "True" rfl, hne "TRUE" rfl,
    hne "false" rfl, hne "False" rfl, hne "FALSE" rfl]

/-- The scalars without quotes. -/
def Scalar.IsPlain : Scalar → Prop
  | .text _ => False
  | _ => True

theorem Scalar.isWord_chars {s : Scalar} (hs : s.IsPlain) : IsWord s.chars := by
  cases s with
  | null word h =>
    show IsWord word
    simp only [nullWords, List.mem_cons, List.not_mem_nil, or_false] at h
    rcases h with rfl | rfl | rfl | rfl <;> exact ⟨nofun, List.all_eq_true.mp rfl⟩
  | bool b word h =>
    show IsWord word
    cases b <;> simp only [boolWords, List.mem_cons, List.not_mem_nil, or_false] at h <;>
      rcases h with rfl | rfl | rfl <;> exact ⟨nofun, List.all_eq_true.mp rfl⟩
  | number n => exact n.isWord_text
  | text q => cases hs

theorem Scalar.literal_resolve {s : Scalar} (hs : s.IsPlain) (span : Span) :
    (Flow.resolve s.chars span).literal = s.literal := by
  cases s with
  | null word h =>
    simp only [nullWords, List.mem_cons, List.not_mem_nil, or_false] at h
    rcases h with rfl | rfl | rfl | rfl <;> rfl
  | bool b word h =>
    cases b <;> simp only [boolWords, List.mem_cons, List.not_mem_nil, or_false] at h <;>
      rcases h with rfl | rfl | rfl <;> rfl
  | number n =>
    rw [show (Scalar.number n).chars = n.text from rfl, resolve_of_number? n.number?_text]
    rfl
  | text q => cases hs

end Sketchwork.Layout
