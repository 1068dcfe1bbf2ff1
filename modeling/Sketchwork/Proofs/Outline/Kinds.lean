/-
  Sketchwork.Proofs.Outline.Kinds — which lines are entries and which are items.

  A colon ends a key only before a space or at the end of the line, so the one in the suffix of
  a sketch belongs to the key. A value on one line has no colon outside quotes and brackets.

  Proved: a line that begins with a key and a colon is an entry (`Key.keyed?_append`) and no item
  (`Key.isSequenceEntry_append`), and a value on one line is neither.
-/
import Sketchwork.Proofs.Outline.Contents

namespace Sketchwork.Layout

open Text (width)

/-! ## Dashes -/

theorem isSequenceEntry_of_cons {l : Line} {c : Char} {cs : List Char} (h : l.text = c :: cs) (hc : c ≠ '-') :
    l.isSequenceEntry = false := by
  unfold Line.isSequenceEntry
  split
  · rename_i he; rw [h] at he; cases he; exact absurd rfl hc
  · rename_i he; rw [h] at he; cases he; exact absurd rfl hc
  · rfl

/-! ## Keys -/

theorem splitAtColon_cons {c : Char} (hc : c ≠ ':') (cs : List Char) :
    Line.splitAtColon (c :: cs) = (Line.splitAtColon cs).map fun (key, value) => (c :: key, value) := by
  rw [Line.splitAtColon]
  · exact fun h => absurd h hc
  · exact fun _ h => absurd h hc

theorem splitAtColon_eq_none {cs : List Char} (h : ':' ∉ cs) : Line.splitAtColon cs = none := by
  induction cs with
  | nil => rfl
  | cons c cs ih =>
    rw [splitAtColon_cons fun e => h (e ▸ List.mem_cons_self), ih fun hm => h (List.mem_cons_of_mem _ hm)]
    rfl

theorem splitAtColon_append {s : List Char} (h : ':' ∉ s) (t : List Char) :
    Line.splitAtColon (s ++ t) = (Line.splitAtColon t).map fun (key, value) => (s ++ key, value) := by
  induction s with
  | nil => rw [List.nil_append]; cases Line.splitAtColon t <;> rfl
  | cons c s ih =>
    rw [List.cons_append, splitAtColon_cons fun e => h (e ▸ List.mem_cons_self),
      ih fun hm => h (List.mem_cons_of_mem _ hm)]
    cases Line.splitAtColon t <;> rfl

/-- The colon of the suffix of a sketch ends no key. -/
theorem splitAtColon_sketch (t : List Char) :
    Line.splitAtColon ([':', 's', 'k', 'e', 't', 'c', 'h'] ++ t) =
      (Line.splitAtColon t).map fun (key, value) => ([':', 's', 'k', 'e', 't', 'c', 'h'] ++ key, value) := by
  have h : Line.splitAtColon (['s', 'k', 'e', 't', 'c', 'h'] ++ t) = _ := splitAtColon_append (by decide) t
  show (Line.splitAtColon (['s', 'k', 'e', 't', 'c', 'h'] ++ t)).map _ = _
  rw [h]
  cases Line.splitAtColon t <;> rfl

theorem Key.splitAtColon_append (k : Key) (t : List Char) :
    Line.splitAtColon (k.text ++ t) = (Line.splitAtColon t).map fun (key, value) => (k.text ++ key, value) := by
  have hname : ':' ∉ (if k.sigil then ['$'] else []) ++ k.name := by
    intro hc
    rcases List.mem_append.mp hc with hc | hc
    · cases hs : k.sigil <;> simp [hs] at hc
    · rcases isAlphanum_of_isIdentifier k.isIdentifier hc with h | h <;> cases h
  rw [Key.text, ← List.append_assoc, List.append_assoc _ _ t, Layout.splitAtColon_append hname]
  cases k.sketch with
  | false => simp
  | true =>
    rw [if_pos rfl, splitAtColon_sketch]
    cases Line.splitAtColon t <;> simp

theorem trimStart_spaces (n : Nat) {t : List Char} (ht : Solid t) : Text.trimStart (spaces n ++ t) = t := by
  rw [Text.trimStart, (Text.takeWhile_dropWhile_append (fun _ hc => isBlank_of_mem_spaces hc) ht).2]

/-- The first colon behind a key ends it. -/
theorem Key.keyed?_append (k : Key) {l : Line} {t value : List Char} (hl : l.text = k.text ++ t)
    (ht : Line.splitAtColon t = some ([], value)) :
    ∃ span, l.keyed? = some ⟨⟨k.value, span⟩, Text.trimStart value, l.stop - width (Text.trimStart value)⟩ := by
  obtain ⟨c, cs, hc, -⟩ := k.exists_cons
  have hne {x : Char} (hx : x.isAlpha = false) (hx' : x ∉ ['_', '$']) {xs : List Char} : ¬ l.text = x :: xs := by
    intro h
    rw [hl, hc] at h
    exact k.ne_of_cons hc hx hx' (List.cons.inj h).1
  have hsplit : Line.splitAtColon l.text = some (k.text, value) := by
    rw [hl, k.splitAtColon_append, ht]
    simp
  have htrim : Text.trimEnd k.text = k.text :=
    trimEnd_eq_self fun c hc => k.isBlank_of_mem (List.mem_of_getLast? hc)
  refine ⟨.sized l.start (width k.text), ?_⟩
  unfold Line.keyed?
  split
  · rename_i h; exact absurd h (hne rfl (by decide))
  · rename_i h; exact absurd h (hne rfl (by decide))
  · rename_i h; exact absurd h (hne rfl (by decide))
  · rename_i h; exact absurd h (hne rfl (by decide))
  · rename_i h; exact absurd h (hne rfl (by decide))
  · simp only [hsplit, htrim]
    rw [if_neg (by simp [hc])]
    rfl

theorem keyed?_eq_none {l : Line} (h : ':' ∉ l.text) : l.keyed? = none := by
  unfold Line.keyed?
  split <;> try rfl
  rw [splitAtColon_eq_none h]

theorem Inline.keyed?_eq_none (v : Inline) (i start : Nat) : Line.keyed? ⟨i, v.text, start⟩ = none := by
  cases v with
  | scalar s =>
    by_cases hs : s.IsPlain
    · exact Layout.keyed?_eq_none fun h => by cases (Scalar.isWord_chars hs).chars _ h
    · cases s with
      | text q => rfl
      | null | bool | number => exact absurd trivial hs
  | emptyList | list | emptyMap | map => rfl

theorem Scalar.isSequenceEntry_eq_false (s : Scalar) (i start : Nat) :
    Line.isSequenceEntry ⟨i, s.chars, start⟩ = false := by
  cases s with
  | null word h =>
    show Line.isSequenceEntry ⟨i, word, start⟩ = false
    simp only [nullWords, List.mem_cons, List.not_mem_nil, or_false] at h
    rcases h with rfl | rfl | rfl | rfl <;> rfl
  | bool b word h =>
    show Line.isSequenceEntry ⟨i, word, start⟩ = false
    cases b <;> simp only [boolWords, List.mem_cons, List.not_mem_nil, or_false] at h <;>
      rcases h with rfl | rfl | rfl <;> rfl
  | number n =>
    show Line.isSequenceEntry ⟨i, n.text, start⟩ = false
    unfold Line.isSequenceEntry
    split
    · rename_i h
      have hn := n.number?_text
      rw [show n.text = ['-'] from h] at hn
      cases hn
    · rename_i cs h
      cases n.isWord_text.chars ' ' (by rw [show n.text = '-' :: ' ' :: cs from h]; simp)
    · rfl
  | text q => rfl

theorem Inline.isSequenceEntry_eq_false (v : Inline) (i start : Nat) :
    Line.isSequenceEntry ⟨i, v.text, start⟩ = false := by
  cases v with
  | scalar s => exact s.isSequenceEntry_eq_false i start
  | emptyList | list | emptyMap | map => rfl

theorem Key.isSequenceEntry_append (k : Key) (t : List Char) (i start : Nat) :
    Line.isSequenceEntry ⟨i, k.text ++ t, start⟩ = false := by
  obtain ⟨c, cs, hc, -⟩ := k.exists_cons
  exact isSequenceEntry_of_cons (show k.text ++ t = c :: (cs ++ t) by rw [hc]; rfl) (k.ne_of_cons hc rfl (by decide))

end Sketchwork.Layout
