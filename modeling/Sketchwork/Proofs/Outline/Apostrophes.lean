/-
  Sketchwork.Proofs.Outline.Apostrophes — texts between single quotes with apostrophes in them.

  Two scanners see such a text. The reader of scalars takes two quotes for an apostrophe and goes
  on. The search for comments, which cuts the line before, takes the first of them for the end of
  the text and does not see that the second opens it again (`withoutComment_doubled`), so behind an
  apostrophe it looks for comments inside the text.

  Proved: an entry with such a text, alone or among others in a list on one line, is read as the
  text itself if this search leaves the line whole, and rejected for the quote that is missing if it
  does not; it is never read as anything else. A text with no `#` behind an apostrophe is left
  whole, and one without double quotes and backslashes is cut exactly where a `#` stands behind an
  apostrophe and behind a blank (`read_apostrophes`). So some texts cannot be written in this way
  (`apostrophe_begins_comment`).
-/
import Mathlib
import Sketchwork.Proofs.Outline.Entries
import Sketchwork.Proofs.Outline.Wrapping

namespace Sketchwork.Written

open Layout (Opener Runs Solid Uncut entryLine)
open Text (isBlank width)

/-- A text between single quotes. -/
def single (s : List Char) : List Char :=
  (Word.single s : Word false).text

def Items.values : Items → List Tree
  | .one item => [item]
  | .cons item more => item :: more.values

/-- A value that is a text between single quotes, or that has no `#`. -/
def Tame (v : Tree) : Prop :=
  (∃ s, v = .word (.single s)) ∨ ∀ t ∈ v.tokens, '#' ∉ t.text

/-- Behind an apostrophe, and behind a blank, stands a `#`. -/
def Exposed (s : List Char) : Prop :=
  ∃ front middle d back, s = front ++ '\'' :: (middle ++ d :: '#' :: back) ∧ isBlank d = true

/-- An entry that is read as its value if the search for comments leaves it whole, and rejected for
    a quote that is missing if not. -/
structure ReadUncut (key : Layout.Key) (gap : Nat) (value : List Char) (l : Literal) : Prop where
  read : Uncut value → (Item.read (entryLine key gap value)).map Item.literal = .ok (.map [(key.value, l)])
  rejected : ¬Uncut value → ∃ span, Item.read (entryLine key gap value) = .error [⟨.openScalar '\'', span⟩]

/-! ## The search for comments -/

theorem mem_singleChar {c d : Char} : c ∈ singleChar d ↔ c = d := by
  unfold singleChar
  split
  · simp_all
  · simp

theorem singleChar_ne_nil (c : Char) : singleChar c ≠ [] := by
  unfold singleChar
  split <;> exact List.cons_ne_nil _ _

/-- The search begins a comment at a `#`, or keeps the character and goes on. -/
theorem withoutComment_step (quote : Option Char) (p c : Char) :
    (c = '#' ∧ ∀ r, Line.withoutComment quote p (c :: r) = []) ∨
      ∃ quote' p', ∀ r, Line.withoutComment quote p (c :: r) = c :: Line.withoutComment quote' p' r := by
  cases quote with
  | some q => exact .inr ⟨_, _, fun _ => rfl⟩
  | none =>
    by_cases hopen : ((c == '"' || c == '\'') && (isBlank p || "[\x7b,:".contains p)) = true
    · exact .inr ⟨some c, _, fun r => by rw [Line.withoutComment, if_pos hopen]⟩
    by_cases hhash : (c == '#' && isBlank p) = true
    · refine .inl ⟨by simpa using (Bool.and_eq_true_iff.mp hhash).1, fun r => ?_⟩
      rw [Line.withoutComment, if_neg hopen, if_pos hhash]
    · exact .inr ⟨none, _, fun r => by rw [Line.withoutComment, if_neg hopen, if_neg hhash]⟩

/-- Where the search cuts a text there is a `#`. -/
theorem withoutComment_cut (cs : List Char) (quote : Option Char) (p : Char) : Line.withoutComment quote p cs = cs ∨
    ∃ rest, cs = Line.withoutComment quote p cs ++ '#' :: rest := by
  induction cs generalizing quote p with
  | nil => exact .inl rfl
  | cons c cs ih =>
    rcases withoutComment_step quote p c with ⟨rfl, hcut⟩ | ⟨quote', p', hkeep⟩
    · exact .inr ⟨cs, by rw [hcut]; rfl⟩
    · rw [hkeep]
      rcases ih quote' p' with h | ⟨rest, h⟩
      · exact .inl (by rw [h])
      · exact .inr ⟨rest, by rw [List.cons_append, ← h]⟩

theorem withoutComment_of_not_mem {cs : List Char} (h : '#' ∉ cs) (quote : Option Char) (p : Char) :
    Line.withoutComment quote p cs = cs := by
  rcases withoutComment_cut cs quote p with hwhole | ⟨rest, hcut⟩
  · exact hwhole
  · refine absurd ?_ h
    rw [hcut]
    exact List.mem_append_right _ List.mem_cons_self

/-- Behind the first apostrophe the search is outside quotes. -/
theorem withoutComment_doubled {content : List Char} (h : '\'' ∉ content) (p : Char) (r : List Char) :
    Line.withoutComment (some '\'') p (content ++ '\'' :: '\'' :: r) =
      content ++ '\'' :: '\'' :: Line.withoutComment none '\'' r := by
  rw [withoutComment_single h, Line.withoutComment]
  simp [isBlank]

/-- What has no `#` is not where the search cuts. -/
theorem withoutComment_append_iff {r : List Char} (hr : '#' ∉ r) (cs : List Char) (quote : Option Char) (p : Char) :
    Line.withoutComment quote p (cs ++ r) = cs ++ r ↔ Line.withoutComment quote p cs = cs := by
  induction cs generalizing quote p with
  | nil => simp [withoutComment_of_not_mem hr, Line.withoutComment]
  | cons c cs ih =>
    rw [List.cons_append]
    rcases withoutComment_step quote p c with ⟨rfl, hcut⟩ | ⟨quote', p', hkeep⟩
    · simp [hcut]
    · rw [hkeep, hkeep, List.cons_inj_right, List.cons_inj_right, ih]

theorem uncut_single_of_not_mem {s : List Char} (h : '\'' ∉ s) : Uncut (single s) := by
  have hsearch := withoutComment_single h '\'' []
  rw [Uncut, single, Word.text, flatMap_singleChar h, withoutComment_open (p := ' ') rfl, hsearch, Line.withoutComment]

/-- Only what stands behind the first apostrophe matters. -/
theorem uncut_single_iff {a s : List Char} (h : '\'' ∉ a) : Uncut (single (a ++ '\'' :: s)) ↔
    Line.withoutComment none '\'' (s.flatMap singleChar) = s.flatMap singleChar := by
  have htext : single (a ++ '\'' :: s) = '\'' :: (a ++ '\'' :: '\'' :: (s.flatMap singleChar ++ ['\''])) := by
    rw [single, Word.text, List.flatMap_append, flatMap_singleChar h, List.flatMap_cons, singleChar, if_pos rfl]
    simp
  rw [Uncut, htext, withoutComment_open (p := ' ') rfl, withoutComment_doubled h]
  simp [withoutComment_append_iff]

/-- A doubled quote leaves the search outside quotes, whether it takes the first one for an opening
    quote or not. -/
theorem withoutComment_pair (p : Char) (r : List Char) :
    Line.withoutComment none p ('\'' :: '\'' :: r) = '\'' :: '\'' :: Line.withoutComment none '\'' r := by
  rw [Line.withoutComment]
  split
  · simp [Line.withoutComment]
  · simp [Line.withoutComment, isBlank]

/-- Somewhere in a text a `#` comes directly behind a blank. -/
def Blanked (s : List Char) : Prop :=
  ∃ front d back, s = front ++ d :: '#' :: back ∧ isBlank d = true

theorem blanked_cons {c d : Char} {s : List Char} :
    Blanked (c :: d :: s) ↔ (isBlank c = true ∧ d = '#') ∨ Blanked (d :: s) := by
  constructor
  · rintro ⟨front, x, back, h, hx⟩
    cases front with
    | nil =>
      cases h
      exact .inl ⟨hx, rfl⟩
    | cons y front => exact .inr ⟨front, x, back, (List.cons.inj h).2, hx⟩
  · rintro (⟨hc, rfl⟩ | ⟨front, x, back, h, hx⟩)
    · exact ⟨[], c, s, rfl, hc⟩
    · exact ⟨c :: front, x, back, by rw [h]; rfl, hx⟩

theorem not_blanked_singleton (c : Char) : ¬Blanked [c] := by
  rintro ⟨front, d, back, h, -⟩
  have hlength := congrArg List.length h
  simp only [List.length_append, List.length_cons, List.length_nil] at hlength
  omega

/-- Outside quotes, and without double quotes and backslashes, a text with its apostrophes doubled
    is cut where a `#` comes behind a blank, and nowhere else. -/
theorem withoutComment_flatMap_iff {s : List Char} (hquote : '"' ∉ s) (hslash : '\\' ∉ s) (p : Char) :
    Line.withoutComment none p (s.flatMap singleChar) = s.flatMap singleChar ↔ ¬Blanked (p :: s) := by
  induction s generalizing p with
  | nil => exact iff_of_true rfl (not_blanked_singleton p)
  | cons c s ih =>
    obtain ⟨hc, hquote⟩ := not_or.mp (mt List.mem_cons.mpr hquote)
    obtain ⟨hc', hslash⟩ := not_or.mp (mt List.mem_cons.mpr hslash)
    have hmore := ih hquote hslash c
    rw [List.flatMap_cons, blanked_cons]
    by_cases happostrophe : c = '\''
    · subst happostrophe
      rw [singleChar, if_pos rfl, List.cons_append, List.singleton_append, withoutComment_pair]
      simpa using hmore
    rw [singleChar, if_neg happostrophe, List.singleton_append]
    by_cases hhash : isBlank p = true ∧ c = '#'
    · obtain ⟨hp, rfl⟩ := hhash
      have hcut : Line.withoutComment none p ('#' :: s.flatMap singleChar) = [] := by
        rw [Line.withoutComment]
        simp [hp]
      simp [hcut, hp]
    · have hmem : c ∉ ['"', '\'', '\\'] := by simp [Ne.symm hc, Ne.symm hc', happostrophe]
      rw [Layout.withoutComment_char hmem hhash, List.cons_inj_right, hmore]
      simp [hhash]

theorem exposed_iff {a s : List Char} (h : '\'' ∉ a) : Exposed (a ++ '\'' :: s) ↔ Blanked ('\'' :: s) := by
  constructor
  · rintro ⟨front, middle, d, back, heq, hd⟩
    rcases List.append_eq_append_iff.mp heq with ⟨more, rfl, hmore⟩ | ⟨more, rfl, hmore⟩
    · exact ⟨more ++ '\'' :: middle, d, back, by rw [hmore, List.append_assoc, List.cons_append], hd⟩
    · cases more with
      | nil => exact ⟨'\'' :: middle, d, back, hmore.symm, hd⟩
      | cons c more =>
        obtain ⟨rfl, -⟩ := List.cons.inj hmore
        exact absurd (List.mem_append_right front List.mem_cons_self) h
  · rintro ⟨front, d, back, heq, hd⟩
    cases front with
    | nil =>
      obtain ⟨rfl, -⟩ := List.cons.inj heq
      exact absurd hd (by decide)
    | cons c middle =>
      obtain ⟨rfl, rfl⟩ := List.cons.inj heq
      exact ⟨a, middle, d, back, rfl, hd⟩

theorem uncut_single_iff_not_exposed {s : List Char} (hquote : '"' ∉ s) (hslash : '\\' ∉ s) :
    Uncut (single s) ↔ ¬Exposed s := by
  by_cases h : '\'' ∈ s
  · obtain ⟨a, s, rfl, ha⟩ := List.eq_append_cons_of_mem h
    have hquote' : '"' ∉ s := fun hm => hquote (List.mem_append_right a (List.mem_cons_of_mem _ hm))
    have hslash' : '\\' ∉ s := fun hm => hslash (List.mem_append_right a (List.mem_cons_of_mem _ hm))
    rw [uncut_single_iff ha, withoutComment_flatMap_iff hquote' hslash', exposed_iff ha]
  · refine iff_of_true (uncut_single_of_not_mem h) ?_
    rintro ⟨front, middle, d, back, rfl, -⟩
    exact h (List.mem_append_right front List.mem_cons_self)

/-- A text is left whole if no `#` stands behind its first apostrophe. -/
theorem uncut_single_of_forall {s : List Char} (h : ∀ front back, s = front ++ '\'' :: back → '#' ∉ back) :
    Uncut (single s) := by
  by_cases hmem : '\'' ∈ s
  · obtain ⟨a, s, rfl, ha⟩ := List.eq_append_cons_of_mem hmem
    rw [uncut_single_iff ha]
    have hhash := h a s rfl
    refine withoutComment_of_not_mem ?_ _ _
    simp [mem_singleChar, hhash]
  · exact uncut_single_of_not_mem hmem

/-! ## Values that are cut -/

/-- A text without `#` stands whole before the first one. -/
theorem exists_of_append_eq_hash {a b kept u : List Char} (ha : '#' ∉ a) (h : a ++ b = kept ++ '#' :: u) :
    ∃ more, kept = a ++ more ∧ b = more ++ '#' :: u := by
  rcases List.append_eq_append_iff.mp h with ⟨more, hkept, hb⟩ | ⟨more, hsplit, hmore⟩
  · exact ⟨more, hkept, hb⟩
  · cases more with
    | nil => exact ⟨[], by rw [hsplit, List.append_nil, List.append_nil], hmore.symm⟩
    | cons c more =>
      obtain ⟨rfl, -⟩ := List.cons.inj hmore
      exact absurd (hsplit ▸ List.mem_append_right kept List.mem_cons_self) ha

/-- A `#` does not part a doubled quote. -/
theorem cases_of_single_eq_hash {s r kept u : List Char} (h : s.flatMap singleChar ++ '\'' :: r = kept ++ '#' :: u) :
    (∃ front : List Char, kept = front.flatMap singleChar) ∨
      ∃ more, kept = s.flatMap singleChar ++ '\'' :: more ∧ r = more ++ '#' :: u := by
  induction s generalizing kept with
  | nil =>
    obtain ⟨more, rfl, hr⟩ := exists_of_append_eq_hash (a := ['\'']) (b := r) (by decide) h
    exact .inr ⟨more, rfl, hr⟩
  | cons c s ih =>
    by_cases hkept : kept = []
    · exact .inl ⟨[], hkept⟩
    rw [List.flatMap_cons, List.append_assoc] at h
    have hstep : ∃ more, kept = singleChar c ++ more ∧ s.flatMap singleChar ++ '\'' :: r = more ++ '#' :: u := by
      by_cases hhash : c = '#'
      · subst hhash
        obtain ⟨d, more, rfl⟩ := List.exists_cons_of_ne_nil hkept
        obtain ⟨hfirst, hrest⟩ := List.cons.inj h
        exact ⟨more, by rw [← hfirst]; rfl, hrest⟩
      · exact exists_of_append_eq_hash (by simpa [mem_singleChar] using Ne.symm hhash) h
    obtain ⟨more, rfl, hmore⟩ := hstep
    rcases ih hmore with ⟨front, rfl⟩ | ⟨more, rfl, hr⟩
    · exact .inl ⟨c :: front, List.flatMap_cons.symm⟩
    · exact .inr ⟨more, by rw [List.flatMap_cons, List.append_assoc], hr⟩

theorem trimEnd_flatMap_singleChar (content : List Char) :
    Text.trimEnd (content.flatMap singleChar) = (Text.trimEnd content).flatMap singleChar := by
  induction content using List.reverseRecOn with
  | nil => rfl
  | append_singleton content c ih =>
    rw [List.flatMap_append, List.flatMap_singleton]
    by_cases hc : isBlank c = true
    · have happostrophe : c ≠ '\'' := by
        rintro rfl
        cases hc
      have hdrop (s : List Char) : Text.trimEnd (s ++ [c]) = Text.trimEnd s := List.rdropWhile_concat_pos _ _ _ hc
      rw [singleChar, if_neg happostrophe, hdrop, hdrop, ih]
    · have hc : isBlank c = false := Bool.eq_false_iff.mpr hc
      have hlast : ∀ x ∈ (content.flatMap singleChar ++ singleChar c).getLast?, isBlank x = false := by
        intro x hx
        rw [List.getLast?_append_of_ne_nil _ (singleChar_ne_nil c)] at hx
        obtain rfl := mem_singleChar.mp (List.mem_of_getLast? hx)
        exact hc
      have hnil : Text.trimEnd [] = [] := rfl
      rw [Layout.trimEnd_eq_self hlast, Layout.trimEnd_append_cons content hc [], hnil, List.flatMap_append,
        List.flatMap_singleton]

/-- What is left of a text that is cut is the opening quote and a content with no closing one. -/
theorem trimEnd_unclosed (gap front : List Char) : Text.trimEnd (gap ++ '\'' :: front.flatMap singleChar) =
    gap ++ '\'' :: (Text.trimEnd front).flatMap singleChar := by
  rw [Layout.trimEnd_append_cons gap rfl, trimEnd_flatMap_singleChar]

theorem newline_not_mem_single {s : List Char} (h : '\n' ∉ s) : '\n' ∉ single s := by
  simp [single, Word.text, mem_singleChar, h]

theorem isBlank_getLast?_single (s : List Char) : ∀ c ∈ (single s).getLast?, isBlank c = false :=
  (Token.word (.single s : Word false)).isBlank_getLast?.2

/-! ## Reading -/

theorem line_single (s : List Char) (start : Nat) :
    ∃ item, Flow.line ⟨start, single s⟩ = .ok item ∧ item.literal = .text (String.ofList s) := by
  obtain ⟨q, hq⟩ := quoted?_single (r := []) s (by simp) start
  refine ⟨.text (String.ofList s) true (.between start q), ?_, rfl⟩
  have hnode : Flow.node? (Flow.depthBound (single s)) .block ⟨start, single s⟩ =
      .ok (some (.text (String.ofList s) true (.between start q), ⟨q, []⟩)) := by
    refine (Layout.node?_of_ne (by decide) (by decide) ..).trans ?_
    unfold Flow.scalar?
    rw [hq]
    rfl
  unfold Flow.line
  simp only [hnode, bind, Except.bind]
  rfl

theorem node?_unclosed (content : List Char) (n : Nat) (context : Flow.Context) (pos : Nat) :
    ∃ span, Flow.node? (n + 1) context ⟨pos, '\'' :: content.flatMap singleChar⟩ = .error ⟨.openScalar '\'', span⟩ := by
  obtain ⟨span, h⟩ := quoted?_unclosed content pos
  refine ⟨span, ?_⟩
  rw [Layout.node?_of_ne (by decide) (by decide), Flow.scalar?, h]
  rfl

/-! ## Lists -/

theorem hash_not_mem_ending {b : Bracket} {comma : Bool} {s : List Char} (hs : Spaced (ending b comma) s) : '#' ∉ s := by
  refine hs.not_mem (by decide) ?_
  cases comma <;> cases b <;> simp [ending, Token.text, Bracket.close]

/-- A cut parts a text between single quotes, or comes behind the whole value. -/
theorem cases_of_tree_eq_hash {v : Tree} (hv : Tame v) {s r kept u : List Char} (hs : Spaced v.tokens s)
    (h : s ++ r = kept ++ '#' :: u) :
    (∃ gap front : List Char, IsGap gap ∧ kept = gap ++ '\'' :: front.flatMap singleChar) ∨
      ∃ more, kept = s ++ more ∧ r = more ++ '#' :: u := by
  rcases hv with ⟨content, rfl⟩ | hhash
  · obtain ⟨gap, s', rfl, hgap, hs'⟩ := hs.exists_of_cons
    cases hs'
    have hopen : '#' ∉ gap ++ ['\''] := by simp [hgap.not_mem (x := '#') (by decide)]
    have htext : (gap ++ ['\'']) ++ (content.flatMap singleChar ++ '\'' :: r) = kept ++ '#' :: u := by
      rw [← h]
      simp [Token.text, Word.text]
    obtain ⟨kept, rfl, hcontent⟩ := exists_of_append_eq_hash hopen htext
    rcases cases_of_single_eq_hash hcontent with ⟨front, rfl⟩ | ⟨more, rfl, hr⟩
    · exact .inl ⟨gap, front, hgap, by simp⟩
    · exact .inr ⟨more, by simp [Token.text, Word.text], hr⟩
  · exact .inr (exists_of_append_eq_hash (hs.not_mem (by decide) hhash) h)

theorem items_unclosed {gap : List Char} (hgap : IsGap gap) (front : List Char) (n pos : Nat) :
    ∃ span, Flow.items (n + 2) (next pos (gap ++ '\'' :: front.flatMap singleChar)) = .error ⟨.openScalar '\'', span⟩ := by
  obtain ⟨span, h⟩ := node?_unclosed front n .item (pos + width gap)
  refine ⟨span, Layout.items_of_node?_error ?_⟩
  rw [next, skipSpaces_gap hgap (.cons rfl), h]

/-- Items are read up to the one that is cut, which lacks its closing quote. -/
theorem items_cut : ∀ (items : Items) {b : Bracket} {comma : Bool} {n : Nat} {s t kept u : List Char},
    (∀ v ∈ items.values, Tame v) → Spaced items.tokens s → Spaced (ending b comma) t → s ++ t = kept ++ '#' :: u →
    2 * (Text.trimEnd kept).length + 1 ≤ n → ∀ pos, ∃ span,
      Flow.items n (next pos (Text.trimEnd kept)) = .error ⟨.openScalar '\'', span⟩
  | .one item, b, comma, n, s, t, kept, u, htame, hs, ht, h, hn, pos => by
    rcases cases_of_tree_eq_hash (htame item List.mem_cons_self) hs h with ⟨gap, front, hgap, rfl⟩ | ⟨more, -, rfl⟩
    · rw [trimEnd_unclosed] at hn ⊢
      obtain ⟨n, rfl⟩ : ∃ m, n = m + 2 := ⟨n - 2, by simp at hn; omega⟩
      exact items_unclosed hgap _ n pos
    · exact absurd (List.mem_append_right more List.mem_cons_self) (hash_not_mem_ending ht)
  | .cons item items, b, comma, n, s, t, kept, u, htame, hs, ht, h, hn, pos => by
    obtain ⟨hitem, hitems⟩ := List.forall_mem_cons.mp htame
    obtain ⟨s₁, s₂, rfl, hs₁, hs₂⟩ := hs.exists_of_append
    rw [List.append_assoc] at h
    rcases cases_of_tree_eq_hash hitem hs₁ h with ⟨gap, front, hgap, rfl⟩ | ⟨kept, rfl, hbehind⟩
    · rw [trimEnd_unclosed] at hn ⊢
      obtain ⟨n, rfl⟩ : ∃ m, n = m + 2 := ⟨n - 2, by simp at hn; omega⟩
      exact items_unclosed hgap _ n pos
    · -- the cut comes behind the item, so it comes behind the comma
      obtain ⟨gap, s₂, rfl, hgap, hs₂⟩ := hs₂.exists_of_cons
      have hfront : '#' ∉ gap ++ [','] := by simp [hgap.not_mem (x := '#') (by decide)]
      have htext : (gap ++ [',']) ++ (s₂ ++ t) = kept ++ '#' :: u := by
        rw [← hbehind]
        simp [Token.text]
      obtain ⟨kept, rfl, hcut⟩ := exists_of_append_eq_hash hfront htext
      have htrim : Text.trimEnd (s₁ ++ (gap ++ [','] ++ kept)) = s₁ ++ (gap ++ ',' :: Text.trimEnd kept) := by
        rw [← List.append_assoc, ← List.append_assoc, List.append_assoc _ [','], List.singleton_append,
          Layout.trimEnd_append_cons _ rfl, List.append_assoc]
      rw [htrim] at hn ⊢
      have hlen := length_tokens_le hs₁
      obtain ⟨n, rfl⟩ : ∃ m, n = m + 1 := ⟨n - 1, by omega⟩
      simp only [List.length_append, List.length_cons] at hn
      have hdelimited : Behind false (gap ++ ',' :: Text.trimEnd kept) := ⟨gap, ',', _, hgap, rfl, .inl rfl⟩
      obtain ⟨it, q, hnode, -⟩ := reads_tree item hs₁ hdelimited (n := n) (by omega) pos
      obtain ⟨span, hmore⟩ := items_cut items hitems hs₂ ht hcut (n := n) (by omega) (q + width gap + 1)
      refine ⟨span, Layout.items_of_moreItems_error hnode ?_⟩
      have hplace := next_gap hgap .comma (Text.trimEnd kept) q
      show Flow.moreItems n (next q (gap ++ (Token.comma.text ++ Text.trimEnd kept))) = _
      rw [hplace]
      exact Layout.moreItems_of_items_error hmore

/-! ## Entries -/

theorem line_unclosed (content : List Char) (start : Nat) :
    ∃ span, Flow.line ⟨start, '\'' :: content.flatMap singleChar⟩ = .error ⟨.openScalar '\'', span⟩ := by
  obtain ⟨span, h⟩ := node?_unclosed content _ .block start
  exact ⟨span, Layout.line_of_node?_error h⟩

theorem readUncut_single (key : Layout.Key) (gap : Nat) {s : List Char} (hbreak : '\n' ∉ s) :
    ReadUncut key gap (single s) (.text (String.ofList s)) := by
  have hnewline := newline_not_mem_single hbreak
  have hlast := isBlank_getLast?_single s
  refine ⟨fun huncut => ?_, fun hcut => ?_⟩
  · exact Layout.read_entryLine_of_uncut key gap hnewline hlast (.cons rfl) (List.cons_ne_nil _ _) huncut trivial
      (line_single s)
  · have hsearch := withoutComment_open (p := ' ') rfl (s.flatMap singleChar ++ ['\''])
    obtain ⟨rest, hrest⟩ := (withoutComment_cut (single s) none ' ').resolve_left hcut
    have hkept := (List.cons.inj (hrest.trans (congrArg (· ++ '#' :: rest) hsearch))).2
    rcases cases_of_single_eq_hash hkept with ⟨front, hfront⟩ | ⟨more, -, hmore⟩
    · refine Layout.read_entryLine_error key gap hnewline hlast rfl hsearch fun start => ?_
      rw [hfront, trimEnd_flatMap_singleChar]
      exact line_unclosed _ start
    · exact absurd hmore (by simp)

/-- A list on one line whose `#`s all stand between single quotes. -/
theorem readUncut_list (key : Layout.Key) (gap : Nat) {items : Items} {comma : Bool} {text : List Char}
    (hs : Spaced (Collection.list items comma).tokens text) (hfirst : Solid text) (hbreak : '\n' ∉ text)
    (hd : (Literal.list items.literals).Distinct) (htame : ∀ v ∈ items.values, Tame v) :
    ReadUncut key gap text (.list items.literals) := by
  have hlast := isBlank_getLast?_spaced hs
  have hline := line_of_spaced hs hfirst
  obtain ⟨r, rfl, hr⟩ := hs.exists_of_solid hfirst
  refine ⟨fun huncut => ?_, fun hcut => ?_⟩
  · exact Layout.read_entryLine_of_uncut key gap hbreak hlast hfirst (List.cons_ne_nil _ _) huncut hd hline
  · obtain ⟨s, t, rfl, hitems, hend⟩ := hr.exists_of_append
    have hsearch : Line.withoutComment none ' ' ('[' :: (s ++ t)) = '[' :: Line.withoutComment none '[' (s ++ t) :=
      Layout.withoutComment_char (by decide) (by decide) (s ++ t)
    obtain ⟨rest, hrest⟩ := (withoutComment_cut ('[' :: (s ++ t)) none ' ').resolve_left hcut
    have hkept := (List.cons.inj (hrest.trans (congrArg (· ++ '#' :: rest) hsearch))).2
    refine Layout.read_entryLine_error key gap hbreak hlast rfl hsearch fun start => ?_
    generalize Line.withoutComment none '[' (s ++ t) = kept at hkept
    have hbound : 2 * (Text.trimEnd kept).length + 1 ≤ 4 * (Text.trimEnd kept).length + 7 := by omega
    obtain ⟨span, h⟩ := items_cut items htame hitems hend hkept hbound (start + 1)
    exact ⟨span, Layout.line_of_node?_error (Layout.node?_of_items_error h)⟩

/-- In a line the search sees a text as it sees it alone, if it sees its opening quote and nothing
    behind it begins a comment. -/
theorem uncut_append_iff {before after s : List Char} {p : Char} (hbefore : Runs ' ' before p) (hp : Opener p)
    (hafter : '#' ∉ after) : Uncut (before ++ (single s ++ after)) ↔ Uncut (single s) := by
  have hopen : Line.withoutComment none p (single s) = Line.withoutComment none ' ' (single s) :=
    (withoutComment_open hp _).trans (withoutComment_open (p := ' ') rfl _).symm
  rw [Uncut, hbefore.keeps, List.append_cancel_left_eq, withoutComment_append_iff hafter, hopen, Uncut]

/-- An entry with a text between single quotes, its apostrophes doubled, is read as the text unless
    the search for comments cuts the line inside of it, alone as well as in a list on one line. It
    cuts nothing before the first apostrophe, and behind it a `#` that comes behind a blank. -/
theorem read_apostrophes (key : Layout.Key) (gap : Nat) {s : List Char} (hbreak : '\n' ∉ s) :
    ReadUncut key gap (single s) (.text (String.ofList s)) ∧
    (∀ (items : Items) (comma : Bool) (text : List Char), Spaced (Collection.list items comma).tokens text → Solid text →
      '\n' ∉ text → (Literal.list items.literals).Distinct → (∀ v ∈ items.values, Tame v) →
      ReadUncut key gap text (.list items.literals)) ∧
    (∀ (before after : List Char) (p : Char), Runs ' ' before p → Opener p → '#' ∉ after →
      (Uncut (before ++ (single s ++ after)) ↔ Uncut (single s))) ∧
    ((∀ front back, s = front ++ '\'' :: back → '#' ∉ back) → Uncut (single s)) ∧
    ('"' ∉ s → '\\' ∉ s → (Uncut (single s) ↔ ¬Exposed s)) :=
  ⟨readUncut_single key gap hbreak,
    fun _ _ _ hs hfirst hbreak hd htame => readUncut_list key gap hs hfirst hbreak hd htame,
    fun _ _ _ hbefore hp hafter => uncut_append_iff hbefore hp hafter,
    uncut_single_of_forall, uncut_single_iff_not_exposed⟩

/-- A text with brackets, a colon, a backslash, a double quote and a `#`, and a list that is cut. -/
theorem read_apostrophes_marks :
    '\n' ∉ "it's: [\\ ]\"#".toList ∧
    (Item.read "a: 'it''s: [\\ ]\"#'".toList).map Item.literal = .ok (.map [("a", .text "it's: [\\ ]\"#")]) ∧
    ∃ span, Item.read "a: [ 'it''s #1', ~]".toList = .error [⟨.openScalar '\'', span⟩] := by
  have hmarks : '\n' ∉ "it's: [\\ ]\"#".toList := by decide
  have huncut : Line.withoutComment none ' ' (single "it's: [\\ ]\"#".toList) = single "it's: [\\ ]\"#".toList := by
    cbv
  let key : Layout.Key := ⟨false, ['a'], false, rfl⟩
  let items : Items := .cons (.word (.single "it's #1".toList)) (.one (.word (.plain ['~'] isPlain_tilde)))
  have hword {t : Token} {ts : List Token} {s : List Char} (h : Spaced ts s) : Spaced (t :: ts) (t.text ++ s) :=
    .cons (isGap_spaces 0) h
  have hs : Spaced (Collection.list items false).tokens "[ 'it''s #1', ~]".toList :=
    hword (.cons (isGap_spaces 1) (hword (.cons (isGap_spaces 1) (hword .nil))))
  have htame : ∀ v ∈ items.values, Tame v :=
    List.forall_mem_cons.mpr ⟨.inl ⟨_, rfl⟩, List.forall_mem_singleton.mpr
      (.inr (List.forall_mem_singleton.mpr (by show '#' ∉ ['~']; decide)))⟩
  have hkept : Line.withoutComment none ' ' "[ 'it''s #1', ~]".toList = "[ 'it''s ".toList := by
    cbv
  have hcut : ¬Line.withoutComment none ' ' "[ 'it''s #1', ~]".toList = "[ 'it''s #1', ~]".toList := by
    rw [hkept]
    decide
  obtain ⟨hsingle, hlist, -⟩ := read_apostrophes key 0 hmarks
  exact ⟨hmarks, hsingle.read huncut,
    (hlist items false _ hs (.cons rfl) (by decide) ⟨trivial, trivial, trivial⟩ htame).rejected hcut⟩

/-- Not every text can be written with its apostrophes doubled. -/
theorem apostrophe_begins_comment :
    ¬∀ (key : Layout.Key) (gap : Nat) (s : List Char), '\n' ∉ s →
      (Item.read (entryLine key gap (single s))).map Item.literal = .ok (.map [(key.value, .text (String.ofList s))]) := by
  intro h
  have hread := h ⟨false, ['a'], false, rfl⟩ 0 ['i', 't', '\'', 's', ' ', '#', '1'] (by decide)
  have herror : ((Item.read ['a', ':', ' ', '\'', 'i', 't', '\'', '\'', 's', ' ', '#', '1', '\'']).map Item.literal).isOk =
      false := by
    cbv
  exact Bool.false_ne_true (herror.symm.trans (congrArg Except.isOk hread))

end Sketchwork.Written
