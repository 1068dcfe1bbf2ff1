/-
  Sketchwork.Proofs.Outline.Inline — values on one line are read back.

  The readers of collections hand the text on to each other, each with what follows its part.

  Proved: whatever way a value is written on one line, the reader takes exactly this text and
  returns the value (`reads_inline`).
-/
import Sketchwork.Proofs.Outline.Words
import Sketchwork.Proofs.Results

namespace Sketchwork.Layout

open Text (isBlank width)

/-! ## Trees of items -/

theorem literals_eq_map (items : List Item) : Item.literal.literals items = items.map Item.literal := by
  induction items with
  | nil => rfl
  | cons item items ih => rw [Item.literal.literals, ih, List.map_cons]

theorem literalEntries_eq_map (entries : List Item.Entry) :
    Item.literal.literalEntries entries = entries.map fun e => (e.1.value, e.2.literal) := by
  induction entries with
  | nil => rfl
  | cons e entries ih => obtain ⟨key, value⟩ := e; rw [Item.literal.literalEntries, ih, List.map_cons]

/-! ## Scalars -/

theorem unescape?_mark (e : Escape) : Flow.unescape? e.mark = some e.value := by
  cases e <;> rfl

theorem escaped_chars (chars : List Spelled) (pos : Nat) (r : List Char) :
    ∃ q, Quoted.escaped Flow.unescape? '"' pos (chars.flatMap Spelled.text ++ '"' :: r) =
      .closed (chars.map Spelled.value) ⟨q, r⟩ := by
  induction chars generalizing pos with
  | nil => exact ⟨pos + 1, by rw [Quoted.escaped.eq_def]; rfl⟩
  | cons s chars ih =>
    cases s with
    | raw c hquote hbackslash _ =>
      obtain ⟨q, hq⟩ := ih (pos + c.utf8Size)
      refine ⟨q, ?_⟩
      rw [List.flatMap_cons]
      show Quoted.escaped _ _ pos (c :: (chars.flatMap Spelled.text ++ '"' :: r)) = _
      rw [Quoted.escaped.eq_def]
      dsimp only
      rw [if_neg hbackslash, if_neg hquote, hq]
      rfl
    | escaped e =>
      obtain ⟨q, hq⟩ := ih (pos + 1 + e.mark.utf8Size)
      refine ⟨q, ?_⟩
      rw [List.flatMap_cons]
      show Quoted.escaped _ _ pos ('\\' :: e.mark :: (chars.flatMap Spelled.text ++ '"' :: r)) = _
      rw [Quoted.escaped.eq_def]
      dsimp only
      rw [if_pos rfl, unescape?_mark]
      dsimp only
      rw [hq]
      rfl

theorem quoted?_text (quoted : Quoted) (pos : Nat) (r : List Char) :
    ∃ q, Flow.quoted? ⟨pos, quoted.text ++ r⟩ = .ok (some (quoted.value, ⟨q, r⟩)) := by
  obtain ⟨q, hq⟩ := escaped_chars quoted.chars (pos + 1) r
  refine ⟨q, ?_⟩
  rw [show quoted.text ++ r = '"' :: (quoted.chars.flatMap Spelled.text ++ '"' :: r) by simp [Quoted.text]]
  simp [Flow.quoted?, hq, Quoted.value]

theorem quoted?_word {w : List Char} (hw : IsWord w) (pos : Nat) (r : List Char) :
    Flow.quoted? ⟨pos, w ++ r⟩ = .ok none := by
  obtain ⟨c, cs, rfl⟩ := List.exists_cons_of_ne_nil hw.ne_nil
  have hc := hw.chars c List.mem_cons_self
  unfold Flow.quoted?
  dsimp only
  split
  · rename_i h; cases h; cases hc
  · rename_i h; cases h; cases hc
  · rfl

theorem scalar?_chars (s : Scalar) {context : Flow.Context} {r : List Char} (hr : Bounded context r) (pos : Nat) :
    ∃ item q, Flow.scalar? context ⟨pos, s.chars ++ r⟩ = .ok (some (item, ⟨q, r⟩)) ∧ item.literal = s.literal := by
  by_cases hs : s.IsPlain
  · refine ⟨_, pos + width s.chars, ?_, Scalar.literal_resolve hs (.between pos (pos + width s.chars))⟩
    unfold Flow.scalar?
    rw [quoted?_word (Scalar.isWord_chars hs), plain?_word (Scalar.isWord_chars hs) hr]
    rfl
  · cases s with
    | text quoted =>
      obtain ⟨q, hq⟩ := quoted?_text quoted pos r
      refine ⟨.text quoted.value true (.between pos q), q, ?_, rfl⟩
      unfold Flow.scalar?
      rw [show (Scalar.text quoted).chars = quoted.text from rfl, hq]
      rfl
    | null | bool | number => exact absurd trivial hs

/-! ## Collections -/

/-- A scalar begins with no blank and no bracket. -/
theorem exists_cons_of_scalar (s : Scalar) :
    ∃ c cs, s.chars = c :: cs ∧ isBlank c = false ∧ c ∉ ['[', '\x7b', ']', '\x7d'] := by
  by_cases hs : s.IsPlain
  · have hw := Scalar.isWord_chars hs
    obtain ⟨c, cs, hc⟩ := List.exists_cons_of_ne_nil hw.ne_nil
    have hword := hw.chars c (hc ▸ List.mem_cons_self)
    refine ⟨c, cs, hc, isBlank_of_isWordChar hword, fun hmem => ?_⟩
    simp only [List.mem_cons, List.not_mem_nil, or_false] at hmem
    rcases hmem with rfl | rfl | rfl | rfl <;> cases hword
  · cases s with
    | text quoted => exact ⟨'"', _, rfl, rfl, by decide⟩
    | null | bool | number => exact absurd trivial hs

theorem exists_cons_of_inline (v : Inline) : ∃ c cs, v.text = c :: cs ∧ isBlank c = false ∧ c ∉ [']', '\x7d'] := by
  cases v with
  | scalar s =>
    obtain ⟨c, cs, hc, hb, hmem⟩ := exists_cons_of_scalar s
    exact ⟨c, cs, by rw [Inline.text, hc], hb, fun h => hmem (List.mem_append_right ['[', '\x7b'] h)⟩
  | emptyList | list | emptyMap | map => exact ⟨_, _, rfl, rfl, by decide⟩

theorem Inline.solid (v : Inline) (r : List Char) : Solid (v.text ++ r) := by
  obtain ⟨c, cs, hc, hb, -⟩ := exists_cons_of_inline v
  rw [hc]
  exact .cons hb

/-- Where no bracket opens a scalar is looked for. -/
theorem node?_of_ne {c : Char} (hc : c ≠ '[') (hc' : c ≠ '\x7b') (n : Nat) (context : Flow.Context) (pos : Nat) (cs : List Char) :
    Flow.node? (n + 1) context ⟨pos, c :: cs⟩ = Flow.scalar? context ⟨pos, c :: cs⟩ := by
  unfold Flow.node?
  split
  · rename_i h; cases h; exact absurd rfl hc
  · rename_i h; cases h; exact absurd rfl hc'
  · rfl

theorem node?_of_scalar (s : Scalar) (n : Nat) (context : Flow.Context) (pos : Nat) (r : List Char) :
    Flow.node? (n + 1) context ⟨pos, s.chars ++ r⟩ = Flow.scalar? context ⟨pos, s.chars ++ r⟩ := by
  obtain ⟨c, cs, hc, -, hmem⟩ := exists_cons_of_scalar s
  simp only [List.mem_cons, not_or] at hmem
  rw [hc]
  exact node?_of_ne hmem.1 hmem.2.1 n context pos (cs ++ r)

theorem close_bracket {bracket : Char} (hb : bracket ≠ ',') (start pos : Nat) (r : List Char) :
    Flow.close bracket start ⟨pos, bracket :: r⟩ = .ok ⟨pos + 1, r⟩ := by
  have hcomma : Flow.comma? ⟨pos, bracket :: r⟩ = none := by
    unfold Flow.comma?
    split
    · rename_i h; cases h; exact absurd rfl hb
    · rfl
  simp [Flow.close, hcomma]

theorem comma?_of_ne {c : Char} (hc : c ≠ ',') (pos : Nat) (r : List Char) : Flow.comma? ⟨pos, c :: r⟩ = none := by
  unfold Flow.comma?
  split
  · rename_i h; cases h; exact absurd rfl hc
  · rfl

theorem node?_of_bracket {bracket : Char} (hb : bracket = ']' ∨ bracket = '\x7d') (n pos : Nat) (r : List Char) :
    Flow.node? n .item ⟨pos, bracket :: r⟩ = .ok none := by
  cases n with
  | zero => rfl
  | succ n =>
    rcases hb with rfl | rfl <;>
      simp [Flow.node?, Flow.scalar?, Flow.quoted?, Flow.plain?, Flow.isReserved, bind, Except.bind, pure, Except.pure]

theorem items_of_bracket (n pos : Nat) (r : List Char) : Flow.items n ⟨pos, ']' :: r⟩ = .ok ([], ⟨pos, ']' :: r⟩) := by
  cases n with
  | zero => rfl
  | succ n => rw [Flow.items, node?_of_bracket (.inl rfl)]; rfl

theorem moreItems_of_bracket (n pos : Nat) (r : List Char) :
    Flow.moreItems n ⟨pos, ']' :: r⟩ = .ok ([], ⟨pos, ']' :: r⟩) := by
  cases n with
  | zero => rfl
  | succ n => rw [Flow.moreItems, comma?_of_ne (by decide)]

theorem items_cons {n : Nat} {p q q' : Place} {item : Item} {more : List Item}
    (h : Flow.node? n .item p = .ok (some (item, q))) (h' : Flow.moreItems n q.skipSpaces = .ok (more, q')) :
    Flow.items (n + 1) p = .ok (item :: more, q') := by
  rw [Flow.items, h]
  show (Flow.moreItems n q.skipSpaces >>= _) = _
  rw [h']
  rfl

/-- Behind a comma the reader goes on as at the first item, if there is one. -/
theorem moreItems_of_items {n pos : Nat} {r : List Char} {item : Item} {more : List Item} {q : Place}
    (h : Flow.items n (Place.skipSpaces ⟨pos + 1, r⟩) = .ok (item :: more, q)) :
    Flow.moreItems n ⟨pos, ',' :: r⟩ = .ok (item :: more, q) := by
  cases n with
  | zero => cases h
  | succ n =>
    rw [Flow.items] at h
    rw [Flow.moreItems, show Flow.comma? ⟨pos, ',' :: r⟩ = some (Place.skipSpaces ⟨pos + 1, r⟩) from rfl]
    obtain ⟨found, h₁, h₂⟩ := exists_of_bind_eq_ok h
    cases found with
    | none => cases h₂
    | some found =>
      dsimp only
      rw [h₁]
      exact h₂

theorem items_of_node?_error {n : Nat} {p : Place} {fault : Diagnostic} (h : Flow.node? n .item p = .error fault) :
    Flow.items (n + 1) p = .error fault := by
  rw [Flow.items, h]
  rfl

theorem items_of_moreItems_error {n : Nat} {p q : Place} {item : Item} {fault : Diagnostic}
    (h : Flow.node? n .item p = .ok (some (item, q))) (h' : Flow.moreItems n q.skipSpaces = .error fault) :
    Flow.items (n + 1) p = .error fault := by
  rw [Flow.items, h]
  show (Flow.moreItems n q.skipSpaces >>= _) = _
  rw [h']
  rfl

theorem moreItems_of_items_error {n pos : Nat} {r : List Char} {fault : Diagnostic}
    (h : Flow.items n (Place.skipSpaces ⟨pos + 1, r⟩) = .error fault) : Flow.moreItems n ⟨pos, ',' :: r⟩ = .error fault := by
  cases n with
  | zero => cases h
  | succ n =>
    rw [Flow.items] at h
    rw [Flow.moreItems, show Flow.comma? ⟨pos, ',' :: r⟩ = some (Place.skipSpaces ⟨pos + 1, r⟩) from rfl]
    dsimp only
    rcases cases_of_bind_eq_error h with hnode | ⟨found, hnode, hmore⟩
    · rw [hnode]
      rfl
    · rw [hnode]
      cases found with
      | none => cases hmore
      | some found => exact hmore

theorem node?_of_items_error {n : Nat} {context : Flow.Context} {pos : Nat} {cs : List Char} {fault : Diagnostic}
    (h : Flow.items n (Place.skipSpaces ⟨pos + 1, cs⟩) = .error fault) :
    Flow.node? (n + 1) context ⟨pos, '[' :: cs⟩ = .error fault := by
  rw [Flow.node?]
  show (Flow.items n (Place.skipSpaces ⟨pos + 1, cs⟩) >>= _) = _
  rw [h]
  rfl

theorem node?_list {n : Nat} {context : Flow.Context} {pos q : Nat} {cs r : List Char} {its : List Item}
    (h : Flow.items n (Place.skipSpaces ⟨pos + 1, cs⟩) = .ok (its, ⟨q, ']' :: r⟩)) :
    Flow.node? (n + 1) context ⟨pos, '[' :: cs⟩ = .ok (some (.seq its (.between pos (q + 1)), ⟨q + 1, r⟩)) := by
  rw [Flow.node?]
  show (Flow.items n (Place.skipSpaces ⟨pos + 1, cs⟩) >>= fun found => Flow.close ']' pos found.2 >>= fun q =>
    Except.ok (some (Item.seq found.1 (.between pos q.pos), q))) = _
  simp only [h, bind, Except.bind, close_bracket (show ']' ≠ ',' by decide)]

theorem node?_map {n : Nat} {context : Flow.Context} {pos q : Nat} {cs r : List Char} {entries : List Item.Entry}
    (h : Flow.entries n (Place.skipSpaces ⟨pos + 1, cs⟩) = .ok (entries, ⟨q, '\x7d' :: r⟩)) :
    Flow.node? (n + 1) context ⟨pos, '\x7b' :: cs⟩ = .ok (some (.map entries (.between pos (q + 1)), ⟨q + 1, r⟩)) := by
  rw [Flow.node?]
  show (Flow.entries n (Place.skipSpaces ⟨pos + 1, cs⟩) >>= fun found => Flow.close '\x7d' pos found.2 >>= fun q =>
    Except.ok (some (Item.map found.1 (.between pos q.pos), q))) = _
  simp only [h, bind, Except.bind, close_bracket (show '\x7d' ≠ ',' by decide)]

theorem entry?_of_brace (n pos : Nat) (r : List Char) : Flow.entry? n ⟨pos, '\x7d' :: r⟩ = .ok none := by
  cases n with
  | zero => rfl
  | succ n =>
    have hkey : Flow.key? ⟨pos, '\x7d' :: r⟩ = .ok none := by
      simp [Flow.key?, Flow.quoted?, Flow.plain?, Flow.isReserved, bind, Except.bind, pure, Except.pure]
    rw [Flow.entry?, hkey]
    rfl

theorem entries_of_brace (n pos : Nat) (r : List Char) :
    Flow.entries n ⟨pos, '\x7d' :: r⟩ = .ok ([], ⟨pos, '\x7d' :: r⟩) := by
  cases n with
  | zero => rfl
  | succ n => rw [Flow.entries, entry?_of_brace]; rfl

theorem moreEntries_of_brace (n pos : Nat) (r : List Char) :
    Flow.moreEntries n ⟨pos, '\x7d' :: r⟩ = .ok ([], ⟨pos, '\x7d' :: r⟩) := by
  cases n with
  | zero => rfl
  | succ n => rw [Flow.moreEntries, comma?_of_ne (by decide)]

theorem entries_cons {n : Nat} {p q q' : Place} {entry : Item.Entry} {more : List Item.Entry}
    (h : Flow.entry? n p = .ok (some (entry, q))) (h' : Flow.moreEntries n q = .ok (more, q')) :
    Flow.entries (n + 1) p = .ok (entry :: more, q') := by
  rw [Flow.entries, h]
  show (Flow.moreEntries n q >>= _) = _
  rw [h']
  rfl

theorem moreEntries_of_entries {n pos : Nat} {r : List Char} {entry : Item.Entry} {more : List Item.Entry} {q : Place}
    (h : Flow.entries n (Place.skipSpaces ⟨pos + 1, r⟩) = .ok (entry :: more, q)) :
    Flow.moreEntries n ⟨pos, ',' :: r⟩ = .ok (entry :: more, q) := by
  cases n with
  | zero => cases h
  | succ n =>
    rw [Flow.entries] at h
    rw [Flow.moreEntries, show Flow.comma? ⟨pos, ',' :: r⟩ = some (Place.skipSpaces ⟨pos + 1, r⟩) from rfl]
    obtain ⟨found, h₁, h₂⟩ := exists_of_bind_eq_ok h
    cases found with
    | none => cases h₂
    | some found =>
      dsimp only
      rw [h₁]
      exact h₂

/-- A quoted key, a colon and a value are an entry. -/
theorem entry?_text (key : Quoted) (left right after : Nat) {n : Nat} {cs r : List Char} {l : Literal} (hcs : Solid cs)
    (hr : Solid r)
    (h : ∀ pos, ∃ item q, Flow.node? n .item ⟨pos, cs⟩ = .ok (some (item, ⟨q, spaces after ++ r⟩)) ∧ item.literal = l)
    (pos : Nat) :
    ∃ entry q, Flow.entry? (n + 1) ⟨pos, key.text ++ (spaces left ++ ':' :: (spaces right ++ cs))⟩ =
      .ok (some (entry, ⟨q, r⟩)) ∧ (entry.1.value, entry.2.literal) = (key.value, l) := by
  obtain ⟨q₁, hkey⟩ := quoted?_text key pos (spaces left ++ ':' :: (spaces right ++ cs))
  obtain ⟨q₂, hleft⟩ := skipSpaces_spaces left q₁ (r := ':' :: (spaces right ++ cs)) (.cons rfl)
  obtain ⟨q₃, hright⟩ := skipSpaces_spaces right (q₂ + 1) hcs
  obtain ⟨item, q₄, hnode, hl⟩ := h q₃
  obtain ⟨q₅, hafter⟩ := skipSpaces_spaces after q₄ hr
  refine ⟨(⟨key.value, .between pos q₁⟩, item), q₅, ?_, by rw [hl]⟩
  have hkey? : Flow.key? ⟨pos, key.text ++ (spaces left ++ ':' :: (spaces right ++ cs))⟩ =
      .ok (some (⟨key.value, .between pos q₁⟩, ⟨q₁, spaces left ++ ':' :: (spaces right ++ cs)⟩)) := by
    unfold Flow.key?
    rw [hkey]
    rfl
  rw [Flow.entry?, hkey?]
  simp only [bind, Except.bind, hleft, hright, hnode, hafter]
  rfl

/-! ## Reading values -/

mutual

/-- A value on a line is read back, with as many readers as its text has characters, twice. -/
theorem reads_inline : ∀ (v : Inline) {n : Nat} {context : Flow.Context} {r : List Char}, Bounded context r →
    2 * v.text.length ≤ n → ∀ pos, ∃ item q,
      Flow.node? n context ⟨pos, v.text ++ r⟩ = .ok (some (item, ⟨q, r⟩)) ∧ item.literal = v.literal
  | .scalar s, n, context, r, hr, hn, pos => by
    obtain ⟨c, cs, hc, -⟩ := exists_cons_of_scalar s
    have hlen : s.chars.length ≠ 0 := by rw [hc]; simp
    obtain ⟨n, rfl⟩ : ∃ m, n = m + 1 := ⟨n - 1, by simp only [Inline.text] at hn; omega⟩
    rw [Inline.text, node?_of_scalar]
    exact scalar?_chars s hr pos
  | .emptyList gap, n, context, r, hr, hn, pos => by
    obtain ⟨n, rfl⟩ : ∃ m, n = m + 1 := ⟨n - 1, by simp [Inline.text] at hn; omega⟩
    obtain ⟨q, hq⟩ := skipSpaces_spaces gap (pos + 1) (r := ']' :: r) (.cons rfl)
    refine ⟨.seq [] (.between pos (q + 1)), q + 1, ?_, rfl⟩
    simp only [Inline.text, List.cons_append, List.append_assoc, List.nil_append]
    exact node?_list (by rw [hq]; exact items_of_bracket n q r)
  | .list items, n, context, r, hr, hn, pos => by
    obtain ⟨n, rfl⟩ : ∃ m, n = m + 1 := ⟨n - 1, by simp [Inline.text] at hn; omega⟩
    obtain ⟨its, q, hits, hl⟩ := reads_items items (pos + 1) r (n := n) (by simp [Inline.text] at hn; omega)
    refine ⟨.seq its (.between pos (q + 1)), q + 1, ?_, ?_⟩
    · simp only [Inline.text, List.cons_append, List.append_assoc, List.nil_append]
      exact node?_list hits
    · simp only [Item.literal, literals_eq_map, hl, Inline.literal]
  | .emptyMap gap, n, context, r, hr, hn, pos => by
    obtain ⟨n, rfl⟩ : ∃ m, n = m + 1 := ⟨n - 1, by simp [Inline.text] at hn; omega⟩
    obtain ⟨q, hq⟩ := skipSpaces_spaces gap (pos + 1) (r := '\x7d' :: r) (.cons rfl)
    refine ⟨.map [] (.between pos (q + 1)), q + 1, ?_, rfl⟩
    simp only [Inline.text, List.cons_append, List.append_assoc, List.nil_append]
    exact node?_map (by rw [hq]; exact entries_of_brace n q r)
  | .map fields, n, context, r, hr, hn, pos => by
    obtain ⟨n, rfl⟩ : ∃ m, n = m + 1 := ⟨n - 1, by simp [Inline.text] at hn; omega⟩
    obtain ⟨es, q, hes, hl⟩ := reads_fields fields (pos + 1) r (n := n) (by simp [Inline.text] at hn; omega)
    refine ⟨.map es (.between pos (q + 1)), q + 1, ?_, ?_⟩
    · simp only [Inline.text, List.cons_append, List.append_assoc, List.nil_append]
      exact node?_map hes
    · simp only [Item.literal, literalEntries_eq_map, hl, Inline.literal]

theorem reads_items : ∀ (items : Items) (pos : Nat) (r : List Char) {n : Nat}, 2 * items.text.length + 1 ≤ n →
    ∃ its q, Flow.items n (Place.skipSpaces ⟨pos, items.text ++ ']' :: r⟩) = .ok (its, ⟨q, ']' :: r⟩) ∧
      its.map Item.literal = items.literals
  | .one before item after, pos, r, n, hn => by
    obtain ⟨n, rfl⟩ : ∃ m, n = m + 1 := ⟨n - 1, by omega⟩
    obtain ⟨q₁, hbefore⟩ := skipSpaces_spaces before pos (item.solid (spaces after ++ ']' :: r))
    obtain ⟨it, q₂, hnode, hl⟩ := reads_inline item (.item after (.inr (.inl rfl)) r) (n := n)
      (by simp [Items.text] at hn; omega) q₁
    obtain ⟨q₃, hafter⟩ := skipSpaces_spaces after q₂ (r := ']' :: r) (.cons rfl)
    refine ⟨[it], q₃, ?_, by simp [Items.literals, hl]⟩
    simp only [Items.text, List.append_assoc]
    rw [hbefore]
    exact items_cons hnode (by rw [hafter]; exact moreItems_of_bracket n q₃ r)
  | .cons before item after more, pos, r, n, hn => by
    obtain ⟨n, rfl⟩ : ∃ m, n = m + 1 := ⟨n - 1, by omega⟩
    obtain ⟨q₁, hbefore⟩ := skipSpaces_spaces before pos (item.solid (spaces after ++ ',' :: (more.text ++ ']' :: r)))
    obtain ⟨it, q₂, hnode, hl⟩ := reads_inline item (.item after (.inl rfl) (more.text ++ ']' :: r)) (n := n)
      (by simp [Items.text] at hn; omega) q₁
    obtain ⟨q₃, hafter⟩ := skipSpaces_spaces after q₂ (r := ',' :: (more.text ++ ']' :: r)) (.cons rfl)
    obtain ⟨its, q₄, hits, hls⟩ := reads_items more (q₃ + 1) r (n := n) (by simp [Items.text] at hn; omega)
    refine ⟨it :: its, q₄, ?_, by simp [Items.literals, hl, hls]⟩
    simp only [Items.text, List.append_assoc, List.cons_append]
    rw [hbefore]
    refine items_cons hnode ?_
    rw [hafter]
    cases its with
    | nil => cases more <;> cases hls
    | cons it' its => exact moreItems_of_items hits

theorem reads_fields : ∀ (fields : Fields) (pos : Nat) (r : List Char) {n : Nat}, 2 * fields.text.length + 1 ≤ n →
    ∃ es q, Flow.entries n (Place.skipSpaces ⟨pos, fields.text ++ '\x7d' :: r⟩) = .ok (es, ⟨q, '\x7d' :: r⟩) ∧
      (es.map fun e => (e.1.value, e.2.literal)) = fields.literals
  | .one before key left right value after, pos, r, n, hn => by
    have hlen : 2 * value.text.length + 2 ≤ n := by simp [Fields.text] at hn; omega
    obtain ⟨n, rfl⟩ : ∃ m, n = m + 2 := ⟨n - 2, by omega⟩
    obtain ⟨q₁, hbefore⟩ := skipSpaces_spaces before pos
      (r := key.text ++ (spaces left ++ ':' :: (spaces right ++ (value.text ++ (spaces after ++ '\x7d' :: r))))) (.cons rfl)
    obtain ⟨e, q₂, hentry, hl⟩ := entry?_text key left right after (value.solid (spaces after ++ '\x7d' :: r))
      (r := '\x7d' :: r) (.cons rfl) (reads_inline value (.item after (.inr (.inr rfl)) r) (n := n) (by omega)) q₁
    refine ⟨[e], q₂, ?_, by simp [Fields.literals, hl]⟩
    simp only [Fields.text, List.append_assoc, List.cons_append]
    rw [hbefore]
    exact entries_cons hentry (moreEntries_of_brace _ q₂ r)
  | .cons before key left right value after more, pos, r, n, hn => by
    have hlen : 2 * value.text.length + 2 ≤ n ∧ 2 * more.text.length + 2 ≤ n := by simp [Fields.text] at hn; omega
    obtain ⟨n, rfl⟩ : ∃ m, n = m + 2 := ⟨n - 2, by omega⟩
    obtain ⟨q₁, hbefore⟩ := skipSpaces_spaces before pos (r := key.text ++ (spaces left ++ ':' :: (spaces right ++
      (value.text ++ (spaces after ++ ',' :: (more.text ++ '\x7d' :: r)))))) (.cons rfl)
    obtain ⟨e, q₂, hentry, hl⟩ := entry?_text key left right after
      (value.solid (spaces after ++ ',' :: (more.text ++ '\x7d' :: r))) (r := ',' :: (more.text ++ '\x7d' :: r)) (.cons rfl)
      (reads_inline value (.item after (.inl rfl) (more.text ++ '\x7d' :: r)) (n := n) (by omega)) q₁
    obtain ⟨es, q₃, hes, hls⟩ := reads_fields more (q₂ + 1) r (n := n + 1) (by omega)
    refine ⟨e :: es, q₃, ?_, by simp [Fields.literals, hl, hls]⟩
    simp only [Fields.text, List.append_assoc, List.cons_append]
    rw [hbefore]
    refine entries_cons hentry ?_
    cases es with
    | nil => cases more <;> cases hls
    | cons e' es => exact moreEntries_of_entries hes

end

theorem line_text (v : Inline) (start : Nat) : ∃ item, Flow.line ⟨start, v.text⟩ = .ok item ∧ item.literal = v.literal := by
  have hn : 2 * v.text.length ≤ Flow.depthBound v.text := by simp only [Flow.depthBound]; omega
  obtain ⟨item, q, hnode, hl⟩ := reads_inline v .line hn start
  rw [List.append_nil] at hnode
  refine ⟨item, ?_, hl⟩
  unfold Flow.line
  simp only [hnode, bind, Except.bind]
  rfl

end Sketchwork.Layout
