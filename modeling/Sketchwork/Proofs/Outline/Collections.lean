/-
  Sketchwork.Proofs.Outline.Collections — collections as they are written.

  A collection is given by its tree: the scalars with their spelling, whether an entry has a
  value, and whether a comma stands behind the last item. `literal` is the value it stands for
  and `tokens` are its tokens in order; the text is any that has these tokens with gaps between.

  Every reader starts behind the gap in front of its first token. It leaves the gap in front
  of the next one, so what is left of a text is always tokens with gaps again.

  Proved: a collection is read back from every text of its tokens (`line_of_spaced`).
-/
import Sketchwork.Proofs.Outline.Tokens

namespace Sketchwork.Written

open Text (width)

/-! ## Trees -/

mutual

inductive Collection where
  /-- `[]`, or `[,]`. -/
  | emptyList (comma : Bool)
  | list (items : Items) (comma : Bool)
  | emptyMap (comma : Bool)
  | map (fields : Fields) (comma : Bool)

inductive Tree where
  | word (w : Word false)
  | collection (c : Collection)

inductive Items where
  | one (item : Tree)
  | cons (item : Tree) (more : Items)

inductive Field where
  /-- A key whose value is left out. -/
  | bare (key : Word true)
  | given (key : Word true) (value : Tree)

inductive Fields where
  | one (field : Field)
  | cons (field : Field) (more : Fields)

end

mutual

def Collection.literal : Collection → Literal
  | .emptyList _ => .list []
  | .list items _ => .list items.literals
  | .emptyMap _ => .map []
  | .map fields _ => .map fields.literals

def Tree.literal : Tree → Literal
  | .word w => w.literal
  | .collection c => c.literal

def Items.literals : Items → List Literal
  | .one item => [item.literal]
  | .cons item more => item.literal :: more.literals

def Field.entry : Field → String × Literal
  | .bare key => (key.key, .null)
  | .given key value => (key.key, value.literal)

def Fields.literals : Fields → List (String × Literal)
  | .one field => [field.entry]
  | .cons field more => field.entry :: more.literals

end

/-- What stands behind the last item: the bracket, or a comma and the bracket. -/
def ending (b : Bracket) (comma : Bool) : List Token :=
  if comma then [.comma, .closing b] else [.closing b]

mutual

def Collection.tokens : Collection → List Token
  | .emptyList comma => .opening .square :: ending .square comma
  | .list items comma => .opening .square :: (items.tokens ++ ending .square comma)
  | .emptyMap comma => .opening .curly :: ending .curly comma
  | .map fields comma => .opening .curly :: (fields.tokens ++ ending .curly comma)

def Tree.tokens : Tree → List Token
  | .word w => [.word w]
  | .collection c => c.tokens

def Items.tokens : Items → List Token
  | .one item => item.tokens
  | .cons item more => item.tokens ++ .comma :: more.tokens

def Field.tokens : Field → List Token
  | .bare key => [.word key, .colon]
  | .given key value => .word key :: .colon :: value.tokens

def Fields.tokens : Fields → List Token
  | .one field => field.tokens
  | .cons field more => field.tokens ++ .comma :: more.tokens

end

theorem Collection.tokens_ne_nil (c : Collection) : c.tokens ≠ [] := by
  cases c <;> exact List.cons_ne_nil _ _

theorem Tree.tokens_ne_nil (v : Tree) : v.tokens ≠ [] := by
  cases v with
  | word w => exact List.cons_ne_nil _ _
  | collection c => exact c.tokens_ne_nil

theorem Field.tokens_ne_nil (field : Field) : field.tokens ≠ [] := by
  cases field <;> exact List.cons_ne_nil _ _

/-! ## Places between tokens -/

/-- The place of the next token. -/
def next (pos : Nat) (s : List Char) : Place :=
  Place.skipSpaces ⟨pos, s⟩

theorem next_gap {gap : List Char} (hgap : IsGap gap) (t : Token) (s : List Char) (pos : Nat) :
    next pos (gap ++ (t.text ++ s)) = ⟨pos + width gap, t.text ++ s⟩ :=
  skipSpaces_gap hgap (t.solid s) pos

theorem next_next (pos : Nat) (s : List Char) : Place.skipSpaces (next pos s) = next pos s := by
  have hdrop : (s.dropWhile fun c => c == ' ' || c == '\t').takeWhile (fun c => c == ' ' || c == '\t') = [] ∧
      (s.dropWhile fun c => c == ' ' || c == '\t').dropWhile (fun c => c == ' ' || c == '\t') =
        s.dropWhile fun c => c == ' ' || c == '\t' := by
    induction s with
    | nil => exact ⟨rfl, rfl⟩
    | cons c s ih =>
      by_cases hc : (c == ' ' || c == '\t') = true
      · rw [List.dropWhile_cons, if_pos hc]
        exact ih
      · rw [List.dropWhile_cons, if_neg hc, List.takeWhile_cons, if_neg hc, List.dropWhile_cons, if_neg hc]
        exact ⟨rfl, rfl⟩
  unfold next Place.skipSpaces Place.skipWhile
  simp only [hdrop, Text.width_nil, Nat.add_zero]

/-- A text that goes on with a comma or a bracket. -/
theorem behind_of_spaced {t : Token} {ts : List Token} {s : List Char} (hs : Spaced (t :: ts) s)
    (ht : t = .comma ∨ ∃ b, t = .closing b) (r : List Char) : Behind false (s ++ r) := by
  obtain ⟨gap, s', rfl, hgap, -⟩ := hs.exists_of_cons
  obtain ⟨d, htext, hd⟩ : ∃ d, t.text = [d] ∧ Layout.Delimiter d := by
    rcases ht with rfl | ⟨b, rfl⟩
    · exact ⟨',', rfl, .inl rfl⟩
    · cases b with
      | square => exact ⟨']', rfl, .inr (.inl rfl)⟩
      | curly => exact ⟨'\x7d', rfl, .inr (.inr rfl)⟩
  exact ⟨gap, d, s' ++ r, hgap, by simp [htext], by simpa using hd⟩

/-- The text behind the items of a collection. -/
theorem behind_ending {b : Bracket} {comma : Bool} {s : List Char} (hs : Spaced (ending b comma) s) (r : List Char) :
    Behind false (s ++ r) := by
  cases comma with
  | true => exact behind_of_spaced hs (.inl rfl) r
  | false => exact behind_of_spaced hs (.inr ⟨b, rfl⟩) r

/-! ## The end of a collection -/

variable {b : Bracket} {comma : Bool} {s : List Char}

theorem comma?_comma (pos : Nat) (s : List Char) : Flow.comma? ⟨pos, ',' :: s⟩ = some (next (pos + 1) s) :=
  rfl

/-- The text behind the last item, without the gap in front of it. -/
theorem exists_of_ending (hs : Spaced (ending b comma) s) (pos : Nat) (r : List Char) :
    (comma = false ∧ ∃ q, next pos (s ++ r) = ⟨q, b.close :: r⟩) ∨
      comma = true ∧ ∃ q s' q', next pos (s ++ r) = ⟨q, ',' :: s'⟩ ∧ next (q + 1) s' = ⟨q', b.close :: r⟩ := by
  cases comma with
  | false =>
    obtain ⟨gap, s', rfl, hgap, hs'⟩ := hs.exists_of_cons
    cases hs'
    refine .inl ⟨rfl, pos + width gap, ?_⟩
    have h := next_gap hgap (.closing b) r pos
    simpa [Token.text] using h
  | true =>
    obtain ⟨gap, s', rfl, hgap, hs'⟩ := hs.exists_of_cons
    obtain ⟨gap', s'', rfl, hgap', hs''⟩ := hs'.exists_of_cons
    cases hs''
    have h := next_gap hgap .comma (gap' ++ ((Token.closing b).text ++ r)) pos
    have h' := next_gap hgap' (.closing b) r (pos + width gap + 1)
    refine .inr ⟨rfl, pos + width gap, gap' ++ b.close :: r, pos + width gap + 1 + width gap', ?_, ?_⟩
    · simpa [Token.text] using h
    · simpa [Token.text] using h'

theorem close_ending (hs : Spaced (ending b comma) s) (start pos : Nat) (r : List Char) :
    ∃ q, Flow.close b.close start (next pos (s ++ r)) = .ok ⟨q, r⟩ := by
  have hne : b.close ≠ ',' := by cases b <;> decide
  rcases exists_of_ending hs pos r with ⟨-, q, h⟩ | ⟨-, q, s', q', h, h'⟩
  · rw [h]
    exact ⟨q + 1, Layout.close_bracket hne start q r⟩
  · rw [h]
    refine ⟨q' + 1, ?_⟩
    unfold Flow.close
    rw [comma?_comma, Option.getD_some, h']
    simp

theorem node?_close (n pos : Nat) (b : Bracket) (r : List Char) : Flow.node? n .item ⟨pos, b.close :: r⟩ = .ok none := by
  cases b with
  | square => exact Layout.node?_of_bracket (.inl rfl) n pos r
  | curly => exact Layout.node?_of_bracket (.inr rfl) n pos r

theorem node?_comma (n pos : Nat) (s : List Char) : Flow.node? n .item ⟨pos, ',' :: s⟩ = .ok none := by
  cases n with
  | zero => rfl
  | succ n =>
    simp [Flow.node?, Flow.scalar?, Flow.quoted?, Flow.plain?, Flow.isReserved, bind, Except.bind, pure, Except.pure]

theorem items_ending (hs : Spaced (ending b comma) s) (n pos : Nat) (r : List Char) :
    Flow.items n (next pos (s ++ r)) = .ok ([], next pos (s ++ r)) := by
  cases n with
  | zero => rfl
  | succ n =>
    have hnode : Flow.node? n .item (next pos (s ++ r)) = .ok none := by
      rcases exists_of_ending hs pos r with ⟨-, q, h⟩ | ⟨-, q, s', q', h, -⟩
      · rw [h, node?_close]
      · rw [h, node?_comma]
    rw [Flow.items, hnode]
    rfl

theorem moreItems_ending (hs : Spaced (ending b comma) s) (n pos : Nat) (r : List Char) :
    Flow.moreItems n (next pos (s ++ r)) = .ok ([], next pos (s ++ r)) := by
  have hne : b.close ≠ ',' := by cases b <;> decide
  cases n with
  | zero => rfl
  | succ n =>
    rcases exists_of_ending hs pos r with ⟨-, q, h⟩ | ⟨-, q, s', q', h, h'⟩
    · rw [h, Flow.moreItems, Layout.comma?_of_ne hne]
    · rw [h, Flow.moreItems, comma?_comma]
      dsimp only
      rw [h', node?_close]
      rfl

theorem entry?_of_key?_none {n : Nat} {p : Place} (h : Flow.key? p = .ok none) : Flow.entry? n p = .ok none := by
  cases n with
  | zero => rfl
  | succ n =>
    rw [Flow.entry?, h]
    rfl

theorem entry?_close (n pos : Nat) (b : Bracket) (r : List Char) : Flow.entry? n ⟨pos, b.close :: r⟩ = .ok none := by
  refine entry?_of_key?_none ?_
  cases b <;>
    simp [Bracket.close, Flow.key?, Flow.quoted?, Flow.plain?, Flow.isReserved, bind, Except.bind, pure, Except.pure]

theorem entry?_comma (n pos : Nat) (s : List Char) : Flow.entry? n ⟨pos, ',' :: s⟩ = .ok none := by
  refine entry?_of_key?_none ?_
  simp [Flow.key?, Flow.quoted?, Flow.plain?, Flow.isReserved, bind, Except.bind, pure, Except.pure]

theorem entries_ending (hs : Spaced (ending b comma) s) (n pos : Nat) (r : List Char) :
    Flow.entries n (next pos (s ++ r)) = .ok ([], next pos (s ++ r)) := by
  cases n with
  | zero => rfl
  | succ n =>
    have hentry : Flow.entry? n (next pos (s ++ r)) = .ok none := by
      rcases exists_of_ending hs pos r with ⟨-, q, h⟩ | ⟨-, q, s', q', h, -⟩
      · rw [h, entry?_close]
      · rw [h, entry?_comma]
    rw [Flow.entries, hentry]
    rfl

theorem moreEntries_ending (hs : Spaced (ending b comma) s) (n pos : Nat) (r : List Char) :
    Flow.moreEntries n (next pos (s ++ r)) = .ok ([], next pos (s ++ r)) := by
  have hne : b.close ≠ ',' := by cases b <;> decide
  cases n with
  | zero => rfl
  | succ n =>
    rcases exists_of_ending hs pos r with ⟨-, q, h⟩ | ⟨-, q, s', q', h, h'⟩
    · rw [h, Flow.moreEntries, Layout.comma?_of_ne hne]
    · rw [h, Flow.moreEntries, comma?_comma]
      dsimp only
      rw [h', entry?_close]
      rfl

/-! ## Reading -/

theorem node?_open {n : Nat} {context : Flow.Context} {pos q : Nat} {s r : List Char} {its : List Item}
    (hitems : Flow.items n (next (pos + 1) s) = .ok (its, next q r)) {q' : Nat} {r' : List Char}
    (hclose : Flow.close ']' pos (next q r) = .ok ⟨q', r'⟩) :
    Flow.node? (n + 1) context ⟨pos, '[' :: s⟩ = .ok (some (.seq its (.between pos q'), ⟨q', r'⟩)) := by
  rw [Flow.node?]
  show (Flow.items n (next (pos + 1) s) >>= fun found => Flow.close ']' pos found.2 >>= fun q =>
    Except.ok (some (Item.seq found.1 (.between pos q.pos), q))) = _
  simp only [hitems, hclose, bind, Except.bind]

theorem node?_openMap {n : Nat} {context : Flow.Context} {pos q : Nat} {s r : List Char} {entries : List Item.Entry}
    (hentries : Flow.entries n (next (pos + 1) s) = .ok (entries, next q r)) {q' : Nat} {r' : List Char}
    (hclose : Flow.close '\x7d' pos (next q r) = .ok ⟨q', r'⟩) :
    Flow.node? (n + 1) context ⟨pos, '\x7b' :: s⟩ = .ok (some (.map entries (.between pos q'), ⟨q', r'⟩)) := by
  rw [Flow.node?]
  show (Flow.entries n (next (pos + 1) s) >>= fun found => Flow.close '\x7d' pos found.2 >>= fun q =>
    Except.ok (some (Item.map found.1 (.between pos q.pos), q))) = _
  simp only [hentries, hclose, bind, Except.bind]

theorem node?_word (w : Word false) {r : List Char} (hr : Behind false r) (n pos : Nat) :
    ∃ item q, Flow.node? (n + 1) .item ⟨pos, w.text ++ r⟩ = .ok (some (item, ⟨q, r⟩)) ∧ item.literal = w.literal := by
  obtain ⟨c, cs, hc, -, hmem⟩ := w.exists_cons
  have hscalar : Flow.node? (n + 1) .item ⟨pos, w.text ++ r⟩ = Flow.scalar? .item ⟨pos, w.text ++ r⟩ := by
    simp only [List.mem_cons, not_or] at hmem
    rw [hc]
    exact Layout.node?_of_ne hmem.1 hmem.2.2.1 n .item pos (cs ++ r)
  rw [hscalar]
  exact scalar?_word w hr pos

/-- Where a comma or a bracket comes next, no value begins. -/
theorem node?_behind {r : List Char} (hr : Behind false r) (n pos : Nat) : Flow.node? n .item (next pos r) = .ok none := by
  obtain ⟨gap, d, r', hgap, rfl, hd⟩ := hr
  have hdelimiter : Layout.Delimiter d := by simpa using hd
  rcases hdelimiter with rfl | rfl | rfl
  · have h := next_gap hgap .comma r' pos
    rw [show gap ++ ',' :: r' = gap ++ (Token.comma.text ++ r') from rfl, h]
    exact node?_comma n _ r'
  · have h := next_gap hgap (.closing .square) r' pos
    rw [show gap ++ ']' :: r' = gap ++ ((Token.closing .square).text ++ r') from rfl, h]
    exact node?_close n _ .square r'
  · have h := next_gap hgap (.closing .curly) r' pos
    rw [show gap ++ '\x7d' :: r' = gap ++ ((Token.closing .curly).text ++ r') from rfl, h]
    exact node?_close n _ .curly r'

/-- The key and the colon of an entry are read, and what comes behind them is its value. -/
theorem entry?_key {key : Word true} {ts : List Token} {s : List Char} (hs : Spaced (.word key :: .colon :: ts) s)
    (n pos : Nat) (r : List Char) : ∃ span q s', Spaced ts s' ∧
      Flow.entry? (n + 1) (next pos (s ++ r)) = (do
        match ← Flow.node? n .item (next q (s' ++ r)) with
        | none =>
          return some ((⟨key.key, span⟩, .null (.point (next q (s' ++ r)).pos)), (next q (s' ++ r)).skipSpaces)
        | some (value, q) => return some ((⟨key.key, span⟩, value), q.skipSpaces)) := by
  obtain ⟨gap, t, rfl, hgap, ht⟩ := hs.exists_of_cons
  obtain ⟨gap', s', rfl, hgap', hs'⟩ := ht.exists_of_cons
  have hbehind : Behind true (gap' ++ ((Token.colon).text ++ (s' ++ r))) := ⟨gap', ':', s' ++ r, hgap', rfl, rfl⟩
  obtain ⟨span, q, hkey⟩ := key?_word key hbehind (pos + width gap)
  have hcolon := next_gap hgap' .colon (s' ++ r) q
  refine ⟨span, q + width gap' + 1, s', hs', ?_⟩
  have hplace : next pos (gap ++ (key.text ++ (gap' ++ (Token.colon.text ++ (s' ++ r))))) =
      ⟨pos + width gap, key.text ++ (gap' ++ (Token.colon.text ++ (s' ++ r)))⟩ :=
    next_gap hgap (.word key) (gap' ++ (Token.colon.text ++ (s' ++ r))) pos
  have htext : gap ++ ((Token.word key).text ++ (gap' ++ (Token.colon.text ++ s'))) ++ r =
      gap ++ (key.text ++ (gap' ++ (Token.colon.text ++ (s' ++ r)))) := by
    simp [Token.text]
  rw [htext, hplace, Flow.entry?, hkey]
  have hskip : Place.skipSpaces ⟨q, gap' ++ (Token.colon.text ++ (s' ++ r))⟩ = ⟨q + width gap', ':' :: (s' ++ r)⟩ := hcolon
  simp only [bind, Except.bind, hskip]
  rfl

mutual

/-- A collection is read back, with as many readers as it has tokens, twice. -/
theorem reads_collection : ∀ (c : Collection) {n : Nat} {context : Flow.Context} {s r : List Char}, Spaced c.tokens s →
    2 * c.tokens.length ≤ n → ∀ pos, ∃ item q,
      Flow.node? n context (next pos (s ++ r)) = .ok (some (item, ⟨q, r⟩)) ∧ item.literal = c.literal
  | .emptyList comma, n, context, s, r, hs, hn, pos => by
    obtain ⟨n, rfl⟩ : ∃ m, n = m + 1 := ⟨n - 1, by simp [Collection.tokens] at hn; omega⟩
    obtain ⟨gap, t, rfl, hgap, ht⟩ := hs.exists_of_cons
    obtain ⟨q, hclose⟩ := close_ending ht (pos + width gap) (pos + width gap + 1) r
    refine ⟨.seq [] (.between (pos + width gap) q), q, ?_, rfl⟩
    rw [List.append_assoc, List.append_assoc, next_gap hgap]
    exact node?_open (items_ending ht n _ r) hclose
  | .list items comma, n, context, s, r, hs, hn, pos => by
    obtain ⟨n, rfl⟩ : ∃ m, n = m + 1 := ⟨n - 1, by simp [Collection.tokens] at hn; omega⟩
    obtain ⟨gap, s', rfl, hgap, hs'⟩ := hs.exists_of_cons
    obtain ⟨u, t, rfl, hu, ht⟩ := hs'.exists_of_append
    obtain ⟨its, q, hits, hl⟩ := reads_items items hu ht (r := r) (n := n)
      (by simp [Collection.tokens] at hn; omega) (pos + width gap + 1)
    obtain ⟨q', hclose⟩ := close_ending ht (pos + width gap) q r
    refine ⟨.seq its (.between (pos + width gap) q'), q', ?_, ?_⟩
    · rw [List.append_assoc, List.append_assoc, List.append_assoc, next_gap hgap]
      exact node?_open hits hclose
    · simp only [Item.literal, Layout.literals_eq_map, hl, Collection.literal]
  | .emptyMap comma, n, context, s, r, hs, hn, pos => by
    obtain ⟨n, rfl⟩ : ∃ m, n = m + 1 := ⟨n - 1, by simp [Collection.tokens] at hn; omega⟩
    obtain ⟨gap, t, rfl, hgap, ht⟩ := hs.exists_of_cons
    obtain ⟨q, hclose⟩ := close_ending ht (pos + width gap) (pos + width gap + 1) r
    refine ⟨.map [] (.between (pos + width gap) q), q, ?_, rfl⟩
    rw [List.append_assoc, List.append_assoc, next_gap hgap]
    exact node?_openMap (entries_ending ht n _ r) hclose
  | .map fields comma, n, context, s, r, hs, hn, pos => by
    obtain ⟨n, rfl⟩ : ∃ m, n = m + 1 := ⟨n - 1, by simp [Collection.tokens] at hn; omega⟩
    obtain ⟨gap, s', rfl, hgap, hs'⟩ := hs.exists_of_cons
    obtain ⟨u, t, rfl, hu, ht⟩ := hs'.exists_of_append
    obtain ⟨es, q, hes, hl⟩ := reads_fields fields hu ht (r := r) (n := n)
      (by simp [Collection.tokens] at hn; omega) (pos + width gap + 1)
    obtain ⟨q', hclose⟩ := close_ending ht (pos + width gap) q r
    refine ⟨.map es (.between (pos + width gap) q'), q', ?_, ?_⟩
    · rw [List.append_assoc, List.append_assoc, List.append_assoc, next_gap hgap]
      exact node?_openMap hes hclose
    · simp only [Item.literal, Layout.literalEntries_eq_map, hl, Collection.literal]

theorem reads_tree : ∀ (v : Tree) {n : Nat} {s r : List Char}, Spaced v.tokens s → Behind false r →
    2 * v.tokens.length ≤ n → ∀ pos, ∃ item q,
      Flow.node? n .item (next pos (s ++ r)) = .ok (some (item, ⟨q, r⟩)) ∧ item.literal = v.literal
  | .word w, n, s, r, hs, hr, hn, pos => by
    obtain ⟨n, rfl⟩ : ∃ m, n = m + 1 := ⟨n - 1, by simp [Tree.tokens] at hn; omega⟩
    obtain ⟨gap, s', rfl, hgap, hs'⟩ := hs.exists_of_cons
    cases hs'
    obtain ⟨item, q, hnode, hl⟩ := node?_word w hr n (pos + width gap)
    refine ⟨item, q, ?_, hl⟩
    rw [List.append_assoc, List.append_assoc, next_gap hgap]
    exact hnode
  | .collection c, n, s, r, hs, hr, hn, pos => reads_collection c hs hn pos

theorem reads_items : ∀ (items : Items) {b : Bracket} {comma : Bool} {n : Nat} {s t r : List Char}, Spaced items.tokens s →
    Spaced (ending b comma) t → 2 * items.tokens.length + 1 ≤ n → ∀ pos, ∃ its q,
      Flow.items n (next pos (s ++ (t ++ r))) = .ok (its, next q (t ++ r)) ∧ its.map Item.literal = items.literals
  | .one item, b, comma, n, s, t, r, hs, ht, hn, pos => by
    obtain ⟨n, rfl⟩ : ∃ m, n = m + 1 := ⟨n - 1, by omega⟩
    obtain ⟨it, q, hnode, hl⟩ := reads_tree item hs (behind_ending ht r) (n := n) (by simp [Items.tokens] at hn; omega) pos
    exact ⟨[it], q, Layout.items_cons hnode (moreItems_ending ht n q r), by simp [Items.literals, hl]⟩
  | .cons item more, b, comma, n, s, t, r, hs, ht, hn, pos => by
    obtain ⟨n, rfl⟩ : ∃ m, n = m + 1 := ⟨n - 1, by omega⟩
    obtain ⟨u, v, rfl, hu, hv⟩ := hs.exists_of_append
    have hbehind := behind_of_spaced hv (.inl rfl) (t ++ r)
    obtain ⟨gap, w, rfl, hgap, hw⟩ := hv.exists_of_cons
    obtain ⟨it, q, hnode, hl⟩ := reads_tree item hu hbehind (n := n) (by simp [Items.tokens] at hn; omega) pos
    obtain ⟨its, q', hits, hls⟩ := reads_items more hw ht (r := r) (n := n) (by simp [Items.tokens] at hn; omega)
      (q + width gap + 1)
    refine ⟨it :: its, q', ?_, by simp [Items.literals, hl, hls]⟩
    rw [List.append_assoc]
    refine Layout.items_cons hnode ?_
    have hcomma := next_gap hgap .comma (w ++ (t ++ r)) q
    rw [List.append_assoc, List.append_assoc]
    show Flow.moreItems n (next q _) = _
    rw [hcomma]
    cases its with
    | nil => cases more <;> cases hls
    | cons it' its => exact Layout.moreItems_of_items hits

theorem reads_field : ∀ (field : Field) {n : Nat} {s r : List Char}, Spaced field.tokens s → Behind false r →
    2 * field.tokens.length ≤ n → ∀ pos, ∃ entry q,
      Flow.entry? n (next pos (s ++ r)) = .ok (some (entry, next q r)) ∧
        (entry.1.value, entry.2.literal) = field.entry
  | .bare key, n, s, r, hs, hr, hn, pos => by
    obtain ⟨n, rfl⟩ : ∃ m, n = m + 1 := ⟨n - 1, by simp [Field.tokens] at hn; omega⟩
    obtain ⟨span, q, s', hs', hentry⟩ := entry?_key hs n pos r
    cases hs'
    rw [hentry, List.nil_append, node?_behind hr]
    refine ⟨(⟨key.key, span⟩, .null (.point (next q r).pos)), q, ?_, rfl⟩
    show Except.ok (some (_, (next q r).skipSpaces)) = _
    rw [next_next]
  | .given key value, n, s, r, hs, hr, hn, pos => by
    obtain ⟨n, rfl⟩ : ∃ m, n = m + 1 := ⟨n - 1, by simp [Field.tokens] at hn; omega⟩
    obtain ⟨span, q, s', hs', hentry⟩ := entry?_key hs n pos r
    obtain ⟨item, q', hnode, hl⟩ := reads_tree value hs' hr (n := n) (by simp [Field.tokens] at hn; omega) q
    rw [hentry, hnode]
    exact ⟨(⟨key.key, span⟩, item), q', rfl, by rw [hl, Field.entry]⟩

theorem reads_fields : ∀ (fields : Fields) {b : Bracket} {comma : Bool} {n : Nat} {s t r : List Char},
    Spaced fields.tokens s → Spaced (ending b comma) t → 2 * fields.tokens.length + 1 ≤ n → ∀ pos, ∃ es q,
      Flow.entries n (next pos (s ++ (t ++ r))) = .ok (es, next q (t ++ r)) ∧
        (es.map fun e => (e.1.value, e.2.literal)) = fields.literals
  | .one field, b, comma, n, s, t, r, hs, ht, hn, pos => by
    obtain ⟨n, rfl⟩ : ∃ m, n = m + 1 := ⟨n - 1, by omega⟩
    obtain ⟨e, q, hentry, hl⟩ := reads_field field hs (behind_ending ht r) (n := n) (by simp [Fields.tokens] at hn; omega) pos
    exact ⟨[e], q, Layout.entries_cons hentry (moreEntries_ending ht n q r), by simp [Fields.literals, hl]⟩
  | .cons field more, b, comma, n, s, t, r, hs, ht, hn, pos => by
    obtain ⟨n, rfl⟩ : ∃ m, n = m + 1 := ⟨n - 1, by omega⟩
    obtain ⟨u, v, rfl, hu, hv⟩ := hs.exists_of_append
    have hbehind := behind_of_spaced hv (.inl rfl) (t ++ r)
    obtain ⟨gap, w, rfl, hgap, hw⟩ := hv.exists_of_cons
    obtain ⟨e, q, hentry, hl⟩ := reads_field field hu hbehind (n := n) (by simp [Fields.tokens] at hn; omega) pos
    obtain ⟨es, q', hes, hls⟩ := reads_fields more hw ht (r := r) (n := n) (by simp [Fields.tokens] at hn; omega)
      (q + width gap + 1)
    refine ⟨e :: es, q', ?_, by simp [Fields.literals, hl, hls]⟩
    rw [List.append_assoc]
    refine Layout.entries_cons hentry ?_
    have hcomma := next_gap hgap .comma (w ++ (t ++ r)) q
    rw [List.append_assoc, List.append_assoc, hcomma]
    cases es with
    | nil => cases more <;> cases hls
    | cons e' es => exact Layout.moreEntries_of_entries hes

end

theorem length_tokens_le {ts : List Token} {s : List Char} (hs : Spaced ts s) : ts.length ≤ s.length := by
  induction hs with
  | nil => exact Nat.le_refl _
  | @cons t ts gap s _ _ ih =>
    have ht : t.text ≠ [] := by
      cases t with
      | opening | closing | comma | colon => exact List.cons_ne_nil _ _
      | word w =>
        obtain ⟨c, cs, hc, -⟩ := w.exists_cons
        rw [Token.text, hc]
        exact List.cons_ne_nil _ _
    have hpos := List.length_pos_iff.mpr ht
    simp only [List.length_cons, List.length_append]
    omega

/-- A collection is read back from every text that has its tokens, with any gaps between them. -/
theorem line_of_spaced {c : Collection} {s : List Char} (hs : Spaced c.tokens s) (hfirst : Layout.Solid s) (start : Nat) :
    ∃ item, Flow.line ⟨start, s⟩ = .ok item ∧ item.literal = c.literal := by
  have hn : 2 * c.tokens.length ≤ Flow.depthBound s := by
    have hlen := length_tokens_le hs
    simp only [Flow.depthBound]
    omega
  have hread : ∃ item q, Flow.node? (Flow.depthBound s) .block (next start (s ++ [])) = .ok (some (item, ⟨q, []⟩)) ∧
      item.literal = c.literal := reads_collection c hs hn start
  obtain ⟨item, q, hnode, hl⟩ := hread
  have hstart : next start (s ++ []) = ⟨start, s⟩ := by
    have h : Place.skipSpaces ⟨start, [] ++ s⟩ = ⟨start, s⟩ :=
      skipSpaces_gap (fun _ hc => absurd hc List.not_mem_nil) hfirst start
    rw [List.append_nil]
    exact h
  rw [hstart] at hnode
  refine ⟨item, ?_, hl⟩
  unfold Flow.line
  simp only [hnode, bind, Except.bind]
  rfl

end Sketchwork.Written
