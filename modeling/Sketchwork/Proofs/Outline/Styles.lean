/-
  Sketchwork.Proofs.Outline.Styles — block style and flow style.

  A plan is a tree as documents have them: its keys are identifiers, with or without the sigil and
  the suffix of a sketch, its leaves scalars. `flow` writes it on one line with plain keys.

  A key of a block ends at the first colon that a space follows, a key of a collection at the first
  colon. So the two styles agree on all keys but those with the suffix: `$p:sketch` in a block is a
  key, and in a collection it is the key `$p` with a value that begins `sketch:`.

  Proved: on one line a plan is read as its tree exactly when no key in it has the suffix, while
  every layout of the tree in blocks is read as the tree (`flow_read_iff`).
-/
import Mathlib
import Sketchwork.Proofs.Outline.Collections
import Sketchwork.Proofs.Outline.Reading

namespace Sketchwork.Layout

open Text (isBlank width)

/-! ## Plans -/

inductive Plan where
  | scalar (s : Scalar)
  | list (items : List Plan)
  | map (entries : List (Key × Plan))

namespace Plan

mutual

def literal : Plan → Literal
  | .scalar s => s.literal
  | .list items => .list (literals items)
  | .map entries => .map (entryLiterals entries)

def literals : List Plan → List Literal
  | [] => []
  | item :: items => literal item :: literals items

def entryLiterals : List (Key × Plan) → List (String × Literal)
  | [] => []
  | (key, value) :: entries => (key.value, literal value) :: entryLiterals entries

end

mutual

/-- The plan on one line, with a space behind every comma and behind the colon of a key. -/
def flow : Plan → List Char
  | .scalar s => s.chars
  | .list items => '[' :: ([',', ' '].intercalate (flows items) ++ [']'])
  | .map entries => '\x7b' :: ([',', ' '].intercalate (entryFlows entries) ++ ['\x7d'])

def flows : List Plan → List (List Char)
  | [] => []
  | item :: items => flow item :: flows items

def entryFlows : List (Key × Plan) → List (List Char)
  | [] => []
  | (key, value) :: entries => (key.text ++ ':' :: ' ' :: flow value) :: entryFlows entries

end

mutual

/-- No key in the plan has the suffix of a sketch. -/
def Unsuffixed : Plan → Prop
  | .scalar _ => True
  | .list items => AllUnsuffixed items
  | .map entries => EntriesUnsuffixed entries

def AllUnsuffixed : List Plan → Prop
  | [] => True
  | item :: items => Unsuffixed item ∧ AllUnsuffixed items

def EntriesUnsuffixed : List (Key × Plan) → Prop
  | [] => True
  | (key, value) :: entries => key.sketch = false ∧ Unsuffixed value ∧ EntriesUnsuffixed entries

end

/-! ## Blocks of plans -/

/-- A list of blocks, each beside its dash; one of none is on its line. -/
def seqOf : List Block → Block
  | [] => .inline (.emptyList 0)
  | item :: items => .seq (bullets item items)
where
  bullets (item : Block) : List Block → Bullets
    | [] => .one (.beside 0 item)
    | next :: items => .cons (.beside 0 item) (bullets next items)

/-- A value on one line stands beside its key, any other one below it. -/
def entryOf (key : Key) : Block → Entry
  | .inline value => .inline key 0 value
  | block => .deeper key 1 block

def mapOf : List (Key × Block) → Block
  | [] => .inline (.emptyMap 0)
  | (key, value) :: entries => .map (fields (entryOf key value) entries)
where
  fields (entry : Entry) : List (Key × Block) → Entries
    | [] => .one entry
    | (key, value) :: entries => .cons entry (fields (entryOf key value) entries)

mutual

/-- The plan in block style. -/
def block : Plan → Block
  | .scalar s => .inline (.scalar s)
  | .list items => seqOf (blocks items)
  | .map entries => mapOf (entryBlocks entries)

def blocks : List Plan → List Block
  | [] => []
  | item :: items => block item :: blocks items

def entryBlocks : List (Key × Plan) → List (Key × Block)
  | [] => []
  | (key, value) :: entries => (key, block value) :: entryBlocks entries

end

theorem literal_seqOf (items : List Block) : (seqOf items).literal = .list (items.map Block.literal) := by
  cases items with
  | nil => rfl
  | cons item items =>
    have hbullets : (seqOf.bullets item items).literals = (item :: items).map Block.literal := by
      induction items generalizing item with
      | nil => rfl
      | cons next items ih => rw [seqOf.bullets, Bullets.literals, ih]; rfl
    rw [seqOf, Block.literal, hbullets]

theorem literal_entryOf (key : Key) (value : Block) :
    ((entryOf key value).key, (entryOf key value).literal) = (key, value.literal) := by
  cases value <;> rfl

theorem literal_mapOf (entries : List (Key × Block)) :
    (mapOf entries).literal = .map (entries.map fun e => (e.1.value, e.2.literal)) := by
  cases entries with
  | nil => rfl
  | cons first entries =>
    have hfields (entry : Entry) : (mapOf.fields entry entries).literals =
        (entry.key.value, entry.literal) :: entries.map fun e => (e.1.value, e.2.literal) := by
      induction entries generalizing entry with
      | nil => rfl
      | cons next entries ih =>
        obtain ⟨hkey, hvalue⟩ := Prod.mk.inj (literal_entryOf next.1 next.2)
        rw [mapOf.fields, Entries.literals, ih, hkey, hvalue]
        rfl
    obtain ⟨hkey, hvalue⟩ := Prod.mk.inj (literal_entryOf first.1 first.2)
    rw [mapOf, Block.literal, hfields, hkey, hvalue]
    rfl

mutual

/-- In block style a plan lays its tree out. -/
theorem literal_block : ∀ plan : Plan, plan.block.literal = plan.literal
  | .scalar _ => rfl
  | .list items => by rw [block, literal_seqOf, literal_blocks items, literal]
  | .map entries => by rw [block, literal_mapOf, literal_entryBlocks entries, literal]

theorem literal_blocks : ∀ items : List Plan, (blocks items).map Block.literal = literals items
  | [] => rfl
  | item :: items => by rw [blocks, List.map_cons, literal_block item, literal_blocks items, literals]

theorem literal_entryBlocks : ∀ entries : List (Key × Plan),
    ((entryBlocks entries).map fun e => (e.1.value, e.2.literal)) = entryLiterals entries
  | [] => rfl
  | (key, value) :: entries => by
    rw [entryBlocks, List.map_cons, literal_block value, literal_entryBlocks entries, entryLiterals]

end

/-! ## The line of a plan -/

theorem intercalate_comma (a b : List Char) (rest : List (List Char)) :
    [',', ' '].intercalate (a :: b :: rest) = a ++ ',' :: ' ' :: [',', ' '].intercalate (b :: rest) := by
  rw [List.intercalate_cons_cons, List.append_assoc]
  rfl

mutual

/-- The search for comments passes over a plan on one line. -/
theorem runs_flow : ∀ (plan : Plan) {p : Char}, Opener p → ∃ q, Runs p plan.flow q
  | .scalar s, _, hp => Runs.scalar s hp
  | .list items, p, _ => by
    obtain ⟨q, hitems⟩ := runs_flows items (opener_of_mem (p := '[') (by simp))
    exact ⟨']', .cons (by decide) p (hitems.trans (.char (by decide) q))⟩
  | .map entries, p, _ => by
    obtain ⟨q, hentries⟩ := runs_entryFlows entries (opener_of_mem (p := '\x7b') (by simp))
    exact ⟨'\x7d', .cons (by decide) p (hentries.trans (.char (by decide) q))⟩

theorem runs_flows : ∀ (items : List Plan) {p : Char}, Opener p → ∃ q, Runs p ([',', ' '].intercalate (flows items)) q
  | [], p, _ => ⟨p, .nil p⟩
  | [item], p, hp => by
    rw [flows, flows, List.intercalate_singleton]
    exact runs_flow item hp
  | item :: next :: items, p, hp => by
    obtain ⟨q, hitem⟩ := runs_flow item hp
    obtain ⟨q', hmore⟩ := runs_flows (next :: items) (p := ' ') rfl
    rw [flows] at hmore
    rw [flows, flows, intercalate_comma]
    exact ⟨q', hitem.trans (.cons (by decide) q (.cons (by decide) ',' hmore))⟩

theorem runs_entryFlows : ∀ (entries : List (Key × Plan)) {p : Char}, Opener p →
    ∃ q, Runs p ([',', ' '].intercalate (entryFlows entries)) q
  | [], p, _ => ⟨p, .nil p⟩
  | [(key, value)], p, _ => by
    obtain ⟨q, hkey⟩ := key.runs p
    obtain ⟨q', hvalue⟩ := runs_flow value (p := ' ') rfl
    rw [entryFlows, entryFlows, List.intercalate_singleton]
    exact ⟨q', hkey.trans (.cons (by decide) q (.cons (by decide) ':' hvalue))⟩
  | (key, value) :: next :: entries, p, _ => by
    obtain ⟨q, hkey⟩ := key.runs p
    obtain ⟨q', hvalue⟩ := runs_flow value (p := ' ') rfl
    obtain ⟨q'', hmore⟩ := runs_entryFlows (next :: entries) (p := ' ') rfl
    obtain ⟨key', value'⟩ := next
    rw [entryFlows] at hmore
    rw [entryFlows, entryFlows, intercalate_comma, List.append_assoc]
    exact ⟨q'', hkey.trans (.cons (by decide) q (.cons (by decide) ':'
      (hvalue.trans (.cons (by decide) q' (.cons (by decide) ',' hmore)))))⟩

end

theorem isRow_flow (entries : List (Key × Plan)) : IsRow (Plan.map entries).flow := by
  obtain ⟨q, hq⟩ := runs_flow (.map entries) (p := ' ') rfl
  refine ⟨⟨_, _, rfl, by decide⟩, ?_, isMarker_of_cons (by decide) (by decide), q, hq⟩
  rw [flow, ← List.cons_append, List.getLast?_concat]
  rintro _ ⟨⟩
  decide

/-! ## Without the suffix -/

open Written (Spaced Word IsPlain Passes Behind IsGap isGap_spaces)

/-- The scanner of plain scalars takes a word of letters, digits and the like whole. -/
theorem passes_of_chars {isKey : Bool} {w : List Char}
    (h : ∀ c ∈ w, c ∉ ['"', '\'', '(', ')', '[', ']', '\x7b', '\x7d', ',', ':']) : Passes isKey w := by
  have hpass (previous : Char) : ∃ q, ∀ r,
      Flow.takePlain isKey 0 none previous (w ++ r) = w ++ Flow.takePlain isKey 0 none q r := by
    induction w generalizing previous with
    | nil => exact ⟨previous, fun _ => rfl⟩
    | cons c w ih =>
      obtain ⟨hc, hmore⟩ := List.forall_mem_cons.mp h
      simp only [List.mem_cons, List.not_mem_nil, or_false, not_or] at hc
      obtain ⟨q, hq⟩ := ih hmore c
      refine ⟨q, fun r => ?_⟩
      rw [List.cons_append, Flow.takePlain]
      simp [Flow.opensQuote, hc, hq]
  exact hpass ' '

/-- A character of a class is none of those outside it. -/
theorem not_mem_of_class {f : Char → Bool} {x : Char} {l : List Char} (hx : f x = true)
    (hl : (l.all fun y => !f y) = true) : x ∉ l := by
  intro hmem
  have houtside := List.all_eq_true.mp hl x hmem
  rw [hx] at houtside
  cases houtside

theorem isPlain_scalar {s : Scalar} (hs : s.IsPlain) : IsPlain false s.chars := by
  have hw := Scalar.isWord_chars hs
  obtain ⟨c, cs, hc⟩ := List.exists_cons_of_ne_nil hw.ne_nil
  have hword := hw.chars c (hc ▸ List.mem_cons_self)
  refine ⟨⟨c, cs, hc, not_mem_of_class hword (by decide), isBlank_of_isWordChar hword⟩, hw.not_blank_getLast?, ?_⟩
  exact passes_of_chars fun x hx => not_mem_of_class (hw.chars x hx) (by decide)

theorem exists_word (s : Scalar) : ∃ w : Word false, w.text = s.chars ∧ w.literal = s.literal := by
  by_cases hs : s.IsPlain
  · exact ⟨.plain s.chars (isPlain_scalar hs), rfl, Scalar.literal_resolve hs _⟩
  · cases s with
    | text q => exact ⟨.double q, rfl, rfl⟩
    | null | bool | number => exact absurd trivial hs

/-- A key without its suffix. -/
def bare (key : Key) : Key :=
  { key with sketch := false }

theorem text_eq_bare (key : Key) :
    key.text = (bare key).text ++ if key.sketch then [':', 's', 'k', 'e', 't', 'c', 'h'] else [] := by
  simp only [Key.text, bare, Bool.false_eq_true, if_false, List.append_nil, List.append_assoc]
  rfl

/-- The suffix makes another key. -/
theorem sketch_eq_false_of_value {key : Key} (h : (bare key).value = key.value) : key.sketch = false := by
  have htext : (bare key).text = key.text := by
    have := congrArg String.toList h
    rwa [Key.value, Key.value, String.toList_ofList, String.toList_ofList] at this
  rw [text_eq_bare key] at htext
  cases hs : key.sketch with
  | false => rfl
  | true =>
    rw [hs] at htext
    have := congrArg List.length htext
    simp at this

/-- A character of a key without its suffix. -/
def isKeyChar (c : Char) : Bool :=
  c.isAlphanum || c == '_' || c == '$'

theorem isKeyChar_bare {key : Key} {c : Char} (h : c ∈ (bare key).text) : isKeyChar c = true := by
  simp only [Key.text, bare, List.mem_append] at h
  rcases h with h | h | h
  · cases hs : key.sigil <;> simp_all [isKeyChar]
  · rcases isAlphanum_of_isIdentifier key.isIdentifier h with h | h <;> simp [isKeyChar, h]
  · simp at h

theorem isPlain_bare (key : Key) : IsPlain true (bare key).text := by
  obtain ⟨c, cs, hc, -⟩ := (bare key).exists_cons
  have hmem : c ∈ (bare key).text := hc ▸ List.mem_cons_self
  refine ⟨⟨c, cs, hc, not_mem_of_class (isKeyChar_bare hmem) (by decide), (bare key).isBlank_of_mem hmem⟩, ?_, ?_⟩
  · exact fun x hx => (bare key).isBlank_of_mem (List.mem_of_getLast? hx)
  · exact passes_of_chars fun x hx => not_mem_of_class (isKeyChar_bare hx) (by decide)

/-- The key of an entry as a scalar of the collection. -/
def word (key : Key) : Word true :=
  .plain (bare key).text (isPlain_bare key)

theorem bare_eq_self {key : Key} (h : key.sketch = false) : bare key = key := by
  obtain ⟨sigil, name, sketch, hname⟩ := key
  obtain rfl : sketch = false := h
  rfl

theorem key_word {key : Key} (h : key.sketch = false) : (word key).key = key.value := by
  rw [word, Word.key, bare_eq_self h]
  rfl

theorem isGap_nil : IsGap [] := nofun

theorem spaced_cons {t : Written.Token} {ts : List Written.Token} {s : List Char} (h : Spaced ts s) : Spaced (t :: ts) (t.text ++ s) :=
  .cons isGap_nil h

theorem spaced_space {ts : List Written.Token} {s : List Char} (hts : ts ≠ []) (h : Spaced ts s) : Spaced ts (' ' :: s) :=
  h.gap (isGap_spaces 1) hts

theorem spaced_entry {key : Key} (hkey : key.sketch = false) {ts : List Written.Token} (hts : ts ≠ []) {s : List Char}
    (h : Spaced ts s) : Spaced (.word (word key) :: .colon :: ts) (key.text ++ ':' :: ' ' :: s) := by
  have htext : (Written.Token.word (word key)).text = key.text := by
    rw [Written.Token.text, word, Word.text, bare_eq_self hkey]
  rw [← htext]
  exact spaced_cons (spaced_cons (t := .colon) (spaced_space hts h))

theorem exists_collection_of_fields {entries : List (Key × Plan)}
    (h : entries ≠ [] → ∃ fields : Written.Fields, fields.literals = entryLiterals entries ∧
      Spaced fields.tokens ([',', ' '].intercalate (entryFlows entries))) :
    ∃ c : Written.Collection, c.literal = (Plan.map entries).literal ∧ Spaced c.tokens (Plan.map entries).flow := by
  cases entries with
  | nil => exact ⟨.emptyMap false, rfl, spaced_cons (spaced_cons .nil)⟩
  | cons entry entries =>
    obtain ⟨fields, hl, hs⟩ := h (List.cons_ne_nil _ _)
    refine ⟨.map fields false, by rw [Written.Collection.literal, hl]; rfl, ?_⟩
    exact spaced_cons (t := .opening .curly) (hs.append (spaced_cons (t := .closing .curly) .nil))

mutual

/-- Without the suffix a plan on one line has the tokens of a tree of the same value. -/
theorem exists_tree : ∀ plan : Plan, plan.Unsuffixed →
    ∃ tree : Written.Tree, tree.literal = plan.literal ∧ Spaced tree.tokens plan.flow
  | .scalar s, _ => by
    obtain ⟨w, htext, hl⟩ := exists_word s
    have h := spaced_cons (t := .word w) .nil
    rw [List.append_nil, Written.Token.text, htext] at h
    exact ⟨.word w, hl, h⟩
  | .list [], _ => ⟨.collection (.emptyList false), rfl, spaced_cons (spaced_cons .nil)⟩
  | .list (item :: items), h => by
    obtain ⟨its, hl, hs⟩ := exists_items (item :: items) (List.cons_ne_nil _ _) h
    refine ⟨.collection (.list its false), by rw [Written.Tree.literal, Written.Collection.literal, hl]; rfl, ?_⟩
    exact spaced_cons (t := .opening .square) (hs.append (spaced_cons (t := .closing .square) .nil))
  | .map entries, h => by
    obtain ⟨c, hl, hs⟩ := exists_collection_of_fields fun hne => exists_fields entries hne h
    exact ⟨.collection c, hl, hs⟩

theorem exists_items : ∀ items : List Plan, items ≠ [] → AllUnsuffixed items →
    ∃ its : Written.Items, its.literals = literals items ∧ Spaced its.tokens ([',', ' '].intercalate (flows items))
  | [], hne, _ => absurd rfl hne
  | [item], _, h => by
    obtain ⟨tree, hl, hs⟩ := exists_tree item h.1
    refine ⟨.one tree, by rw [Written.Items.literals, hl]; rfl, ?_⟩
    rw [flows, flows, List.intercalate_singleton]
    exact hs
  | item :: next :: items, _, h => by
    obtain ⟨tree, hl, hs⟩ := exists_tree item h.1
    obtain ⟨its, hls, hmore⟩ := exists_items (next :: items) (List.cons_ne_nil _ _) h.2
    refine ⟨.cons tree its, by rw [Written.Items.literals, hl, hls]; rfl, ?_⟩
    rw [flows] at hmore
    rw [flows, flows, intercalate_comma]
    refine hs.append (spaced_cons (t := .comma) (spaced_space ?_ hmore))
    cases its with
    | one tree => exact tree.tokens_ne_nil
    | cons tree its => exact List.append_ne_nil_of_left_ne_nil tree.tokens_ne_nil _

theorem exists_fields : ∀ entries : List (Key × Plan), entries ≠ [] → EntriesUnsuffixed entries →
    ∃ fields : Written.Fields, fields.literals = entryLiterals entries ∧
      Spaced fields.tokens ([',', ' '].intercalate (entryFlows entries))
  | [], hne, _ => absurd rfl hne
  | [(key, value)], _, h => by
    obtain ⟨tree, hl, hs⟩ := exists_tree value h.2.1
    refine ⟨.one (.given (word key) tree), ?_, ?_⟩
    · rw [Written.Fields.literals, Written.Field.entry, hl, key_word h.1]
      rfl
    · rw [entryFlows, entryFlows, List.intercalate_singleton]
      exact spaced_entry h.1 tree.tokens_ne_nil hs
  | (key, value) :: next :: entries, _, h => by
    obtain ⟨tree, hl, hs⟩ := exists_tree value h.2.1
    obtain ⟨fields, hls, hmore⟩ := exists_fields (next :: entries) (List.cons_ne_nil _ _) h.2.2
    refine ⟨.cons (.given (word key) tree) fields, ?_, ?_⟩
    · rw [Written.Fields.literals, Written.Field.entry, hl, hls, key_word h.1]
      rfl
    · obtain ⟨key', value'⟩ := next
      rw [entryFlows] at hmore
      rw [entryFlows, entryFlows, intercalate_comma]
      refine (spaced_entry h.1 tree.tokens_ne_nil hs).append (spaced_cons (t := .comma) (spaced_space ?_ hmore))
      cases fields with
      | one field => exact field.tokens_ne_nil
      | cons field fields => exact List.append_ne_nil_of_left_ne_nil field.tokens_ne_nil _

end

theorem exists_collection {entries : List (Key × Plan)} (h : (Plan.map entries).Unsuffixed) :
    ∃ c : Written.Collection, c.literal = (Plan.map entries).literal ∧ Spaced c.tokens (Plan.map entries).flow :=
  exists_collection_of_fields fun hne => exists_fields entries hne h

/-! ## With the suffix -/

open Written (next)

theorem next_text (t : Written.Token) (s : List Char) (pos : Nat) : next pos (t.text ++ s) = ⟨pos, t.text ++ s⟩ :=
  Written.next_gap isGap_nil t s pos

theorem next_space (pos : Nat) (s : List Char) : next pos (' ' :: s) = next (pos + 1) s := by
  have hwidth : ' '.utf8Size = 1 := rfl
  simp [next, Place.skipSpaces, Place.skipWhile, hwidth, Nat.add_assoc]

/-- What may come behind a value in a collection. -/
theorem behind_of_delimiter {d : Char} (hd : Delimiter d) (r : List Char) : Behind false (d :: r) :=
  ⟨[], d, r, isGap_nil, rfl, hd⟩

/-- Without the suffix a value is read, and what comes behind it is left. -/
theorem node?_of_unsuffixed {plan : Plan} (h : plan.Unsuffixed) {r : List Char} (hr : Behind false r) {n : Nat}
    (hn : 2 * plan.flow.length ≤ n) (pos : Nat) :
    ∃ item q, Flow.node? n .item (next pos (plan.flow ++ r)) = .ok (some (item, ⟨q, r⟩)) := by
  obtain ⟨tree, -, hs⟩ := exists_tree plan h
  have hlen := Written.length_tokens_le hs
  obtain ⟨item, q, hnode, -⟩ := Written.reads_tree tree hs hr (n := n) (by omega) pos
  exact ⟨item, q, hnode⟩

/-- The key of an entry is read up to its first colon. -/
theorem entry?_bare (key : Key) (r : List Char) (n pos : Nat) :
    ∃ span q, Flow.entry? (n + 1) (next pos ((bare key).text ++ ':' :: r)) = (do
      match ← Flow.node? n .item (next q r) with
      | none => return some ((⟨(bare key).value, span⟩, .null (.point (next q r).pos)), (next q r).skipSpaces)
      | some (value, q) => return some ((⟨(bare key).value, span⟩, value), q.skipSpaces)) := by
  have hs : Spaced [.word (word key), .colon] ((bare key).text ++ [':']) := spaced_cons (spaced_cons .nil)
  obtain ⟨span, q, s', hs', hentry⟩ := Written.entry?_key hs n pos r
  cases hs'
  rw [List.append_assoc] at hentry
  exact ⟨span, q, hentry⟩

/-- Behind a comma the reader has gone on as at the first item. -/
theorem items_of_moreItems {n pos : Nat} {r : List Char} {item : Item} {more : List Item} {q : Place}
    (h : Flow.moreItems n (next pos (',' :: r)) = .ok (item :: more, q)) :
    Flow.items n (next (pos + 1) r) = .ok (item :: more, q) := by
  have hplace : next pos (',' :: r) = ⟨pos, ',' :: r⟩ := next_text .comma r pos
  rw [hplace] at h
  cases n with
  | zero => cases h
  | succ n =>
    rw [Flow.moreItems, Written.comma?_comma] at h
    rw [Flow.items]
    obtain ⟨found, h₁, h₂⟩ := exists_of_bind_eq_ok h
    cases found with
    | none => cases h₂
    | some found => rw [h₁]; exact h₂

theorem entries_of_moreEntries {n pos : Nat} {r : List Char} {entry : Item.Entry} {more : List Item.Entry} {q : Place}
    (h : Flow.moreEntries n (next pos (',' :: r)) = .ok (entry :: more, q)) :
    Flow.entries n (next (pos + 1) r) = .ok (entry :: more, q) := by
  have hplace : next pos (',' :: r) = ⟨pos, ',' :: r⟩ := next_text .comma r pos
  rw [hplace] at h
  cases n with
  | zero => cases h
  | succ n =>
    rw [Flow.moreEntries, Written.comma?_comma] at h
    rw [Flow.entries]
    obtain ⟨found, h₁, h₂⟩ := exists_of_bind_eq_ok h
    cases found with
    | none => cases h₂
    | some found => rw [h₁]; exact h₂

/-- What is read first of items is the first one, and the others behind it. -/
theorem exists_of_items {n : Nat} {p q : Place} {it : Item} {its : List Item}
    (h : Flow.items (n + 1) p = .ok (it :: its, q)) :
    ∃ p', Flow.node? n .item p = .ok (some (it, p')) ∧ Flow.moreItems n p'.skipSpaces = .ok (its, q) := by
  rw [Flow.items] at h
  obtain ⟨found, hnode, h⟩ := exists_of_bind_eq_ok h
  cases found with
  | none => cases h
  | some found =>
    obtain ⟨more, hmore, h⟩ := exists_of_bind_eq_ok h
    cases h
    exact ⟨found.2, hnode, hmore⟩

theorem exists_of_entries {n : Nat} {p q : Place} {entry : Item.Entry} {entries : List Item.Entry}
    (h : Flow.entries (n + 1) p = .ok (entry :: entries, q)) :
    ∃ p', Flow.entry? n p = .ok (some (entry, p')) ∧ Flow.moreEntries n p' = .ok (entries, q) := by
  rw [Flow.entries] at h
  obtain ⟨found, hentry, h⟩ := exists_of_bind_eq_ok h
  cases found with
  | none => cases h
  | some found =>
    obtain ⟨more, hmore, h⟩ := exists_of_bind_eq_ok h
    cases h
    exact ⟨found.2, hentry, hmore⟩

/-- An entry that is read with the key it was written with has no suffix. -/
theorem sketch_eq_false_of_entry? {key : Key} {s : List Char} {n pos : Nat} {entry : Item.Entry} {q : Place}
    (h : Flow.entry? (n + 1) (next pos (key.text ++ ':' :: s)) = .ok (some (entry, q)))
    (hkey : entry.1.value = key.value) : key.sketch = false := by
  obtain ⟨r, hr⟩ : ∃ r, key.text ++ ':' :: s = (bare key).text ++ ':' :: r := by
    rw [text_eq_bare key]
    cases key.sketch with
    | true => exact ⟨['s', 'k', 'e', 't', 'c', 'h'] ++ ':' :: s, by simp⟩
    | false => exact ⟨s, by simp⟩
  obtain ⟨span, p, hentry⟩ := entry?_bare key r n pos
  rw [hr, hentry] at h
  obtain ⟨found, -, h⟩ := exists_of_bind_eq_ok h
  apply sketch_eq_false_of_value
  rw [← hkey]
  cases found with
  | none => cases h; rfl
  | some found => cases h; rfl

/-- The value of an entry is read behind its colon. -/
theorem exists_of_entry? {key : Key} (hkey : key.sketch = false) {s : List Char} {n pos : Nat} {entry : Item.Entry}
    {q : Place} (h : Flow.entry? (n + 1) (next pos (key.text ++ ':' :: s)) = .ok (some (entry, q))) :
    ∃ p, Flow.node? n .item (next p s) = .ok none ∧ entry.2.literal = .null ∨
      ∃ q', Flow.node? n .item (next p s) = .ok (some (entry.2, q')) ∧ q = q'.skipSpaces := by
  obtain ⟨span, p, hentry⟩ := entry?_bare key s n pos
  rw [bare_eq_self hkey] at hentry
  rw [hentry] at h
  obtain ⟨found, hnode, h⟩ := exists_of_bind_eq_ok h
  refine ⟨p, ?_⟩
  cases found with
  | none => cases h; exact .inl ⟨hnode, rfl⟩
  | some found => cases h; exact .inr ⟨found.2, hnode, rfl⟩

/-- Null is written without a key. -/
theorem unsuffixed_of_null {plan : Plan} (h : plan.literal = .null) : plan.Unsuffixed := by
  cases plan with
  | scalar => trivial
  | list | map => cases h

/-- Where it is read as its own tree, the plan has no suffix in it. -/
def Tells (plan : Plan) : Prop :=
  ∀ {n : Nat} {context : Flow.Context} {pos : Nat} {r : List Char} {item : Item} {q : Place},
    2 * plan.flow.length ≤ n → Flow.node? n context (next pos (plan.flow ++ r)) = .ok (some (item, q)) →
    item.literal = plan.literal → plan.Unsuffixed

/-- An entry that is read as itself has no suffix, and it was read to its end. -/
theorem unsuffixed_of_entry? {value : Plan} (hvalue : value.Tells) {key : Key} {n pos : Nat} {r : List Char}
    {entry : Item.Entry} {q : Place} (hn : 2 * value.flow.length ≤ n) (hr : Behind false r)
    (h : Flow.entry? (n + 1) (next pos (key.text ++ ':' :: ' ' :: (value.flow ++ r))) = .ok (some (entry, q)))
    (hl : (entry.1.value, entry.2.literal) = (key.value, value.literal)) :
    key.sketch = false ∧ value.Unsuffixed ∧ ∃ q', q = next q' r := by
  obtain ⟨hname, hliteral⟩ := Prod.mk.inj hl
  have hkey := sketch_eq_false_of_entry? h hname
  obtain ⟨p, hcase⟩ := exists_of_entry? hkey h
  rw [next_space] at hcase
  have hunsuffixed : value.Unsuffixed := by
    rcases hcase with ⟨-, hnull⟩ | ⟨q', hnode, -⟩
    · exact unsuffixed_of_null (hliteral.symm.trans hnull)
    · exact hvalue hn hnode hliteral
  obtain ⟨item, q'', hread⟩ := node?_of_unsuffixed hunsuffixed hr hn (p + 1)
  refine ⟨hkey, hunsuffixed, ?_⟩
  rcases hcase with ⟨hnone, -⟩ | ⟨q', hnode, rfl⟩
  · cases hread.symm.trans hnone
  · cases hread.symm.trans hnode
    exact ⟨q'', rfl⟩

mutual

/-- A value that is read as the tree of a plan had no suffix in it: the first one would have
    changed its key. -/
theorem unsuffixed_of_node? : ∀ plan : Plan, plan.Tells
  | .scalar _, _, _, _, _, _, _, _, _, _ => trivial
  | .list items, n, context, pos, r, item, q, hn, h, hl => by
    obtain ⟨n, rfl⟩ : ∃ m, n = m + 1 := ⟨n - 1, by simp [flow] at hn; omega⟩
    have hplace : next pos ((Plan.list items).flow ++ r) =
        ⟨pos, '[' :: ([',', ' '].intercalate (flows items) ++ [']'] ++ r)⟩ := next_text (.opening .square) _ pos
    rw [hplace, Flow.node?] at h
    obtain ⟨⟨its, q'⟩, hits, h⟩ := exists_of_bind_eq_ok h
    obtain ⟨q'', -, h⟩ := exists_of_bind_eq_ok h
    cases h
    rw [List.append_assoc] at hits
    refine unsuffixed_of_items items (by simp [flow] at hn; omega) hits ?_
    rw [Item.literal, literals_eq_map, literal] at hl
    exact Literal.list.inj hl
  | .map entries, n, context, pos, r, item, q, hn, h, hl => by
    obtain ⟨n, rfl⟩ : ∃ m, n = m + 1 := ⟨n - 1, by simp [flow] at hn; omega⟩
    have hplace : next pos ((Plan.map entries).flow ++ r) =
        ⟨pos, '\x7b' :: ([',', ' '].intercalate (entryFlows entries) ++ ['\x7d'] ++ r)⟩ := next_text (.opening .curly) _ pos
    rw [hplace, Flow.node?] at h
    obtain ⟨⟨es, q'⟩, hes, h⟩ := exists_of_bind_eq_ok h
    obtain ⟨q'', -, h⟩ := exists_of_bind_eq_ok h
    cases h
    rw [List.append_assoc] at hes
    refine unsuffixed_of_entries entries (by simp [flow] at hn; omega) hes ?_
    rw [Item.literal, literalEntries_eq_map, literal] at hl
    exact Literal.map.inj hl

theorem unsuffixed_of_items : ∀ (items : List Plan) {n pos : Nat} {r : List Char} {its : List Item} {q : Place},
    2 * ([',', ' '].intercalate (flows items)).length + 1 ≤ n →
    Flow.items n (next pos ([',', ' '].intercalate (flows items) ++ ']' :: r)) = .ok (its, q) →
    its.map Item.literal = literals items → AllUnsuffixed items
  | [], _, _, _, _, _, _, _, _ => trivial
  | [item], n, pos, r, its, q, hn, h, hl => by
    obtain ⟨n, rfl⟩ : ∃ m, n = m + 1 := ⟨n - 1, by omega⟩
    obtain ⟨it, its, rfl, hit, -⟩ := List.map_eq_cons_iff.mp hl
    rw [flows, flows, List.intercalate_singleton] at hn h
    obtain ⟨p, hnode, -⟩ := exists_of_items h
    exact ⟨unsuffixed_of_node? item (by omega) hnode hit, trivial⟩
  | item :: next' :: items, n, pos, r, its, q, hn, h, hl => by
    obtain ⟨n, rfl⟩ : ∃ m, n = m + 1 := ⟨n - 1, by omega⟩
    obtain ⟨it, its, rfl, hit, hits⟩ := List.map_eq_cons_iff.mp hl
    rw [flows, flows, intercalate_comma, List.append_assoc] at h
    rw [flows, flows, intercalate_comma, List.length_append, List.length_cons, List.length_cons] at hn
    obtain ⟨p, hnode, hmore⟩ := exists_of_items h
    have hitem := unsuffixed_of_node? item (by omega) hnode hit
    -- so the first item was read to its end
    obtain ⟨it', q', hread⟩ := node?_of_unsuffixed hitem (behind_of_delimiter (.inl rfl) _) (n := n) (by omega) pos
    rw [List.cons_append] at hnode
    cases hread.symm.trans hnode
    obtain ⟨it₂, its, rfl, -⟩ := List.map_eq_cons_iff.mp hits
    have hnext := items_of_moreItems hmore
    rw [List.cons_append, next_space] at hnext
    rw [← flows] at hn hnext
    exact ⟨hitem, unsuffixed_of_items (next' :: items) (n := n) (by omega) hnext hits⟩

theorem unsuffixed_of_entries : ∀ (entries : List (Key × Plan)) {n pos : Nat} {r : List Char} {es : List Item.Entry}
    {q : Place}, 2 * ([',', ' '].intercalate (entryFlows entries)).length + 1 ≤ n →
    Flow.entries n (next pos ([',', ' '].intercalate (entryFlows entries) ++ '\x7d' :: r)) = .ok (es, q) →
    (es.map fun e => (e.1.value, e.2.literal)) = entryLiterals entries → EntriesUnsuffixed entries
  | [], _, _, _, _, _, _, _, _ => trivial
  | [(key, value)], n, pos, r, es, q, hn, h, hl => by
    obtain ⟨n, rfl⟩ : ∃ m, n = m + 2 := ⟨n - 2, by simp [entryFlows] at hn; omega⟩
    obtain ⟨entry, es, rfl, hfirst, -⟩ := List.map_eq_cons_iff.mp hl
    rw [entryFlows, entryFlows, List.intercalate_singleton, List.append_assoc] at h
    rw [entryFlows, entryFlows, List.intercalate_singleton] at hn
    obtain ⟨p, hentry, -⟩ := exists_of_entries h
    obtain ⟨hkey, hvalue, -⟩ := unsuffixed_of_entry? (unsuffixed_of_node? value) (by simp at hn; omega)
      (behind_of_delimiter (.inr (.inr rfl)) r) hentry hfirst
    exact ⟨hkey, hvalue, trivial⟩
  | (key, value) :: (key', value') :: entries, n, pos, r, es, q, hn, h, hl => by
    obtain ⟨n, rfl⟩ : ∃ m, n = m + 2 := ⟨n - 2, by simp [entryFlows] at hn; omega⟩
    obtain ⟨entry, es, rfl, hfirst, hes⟩ := List.map_eq_cons_iff.mp hl
    rw [entryFlows, entryFlows, intercalate_comma, List.append_assoc, List.append_assoc] at h
    rw [entryFlows, entryFlows, intercalate_comma] at hn
    obtain ⟨p, hentry, hmore⟩ := exists_of_entries h
    obtain ⟨hkey, hvalue, q', rfl⟩ := unsuffixed_of_entry? (unsuffixed_of_node? value) (by simp at hn; omega)
      (behind_of_delimiter (.inl rfl) _) hentry hfirst
    obtain ⟨entry₂, es, rfl, -⟩ := List.map_eq_cons_iff.mp hes
    have hnext : Flow.entries (n + 1) (next (q' + 1)
        (' ' :: ([',', ' '].intercalate (entryFlows ((key', value') :: entries)) ++ '\x7d' :: r))) = _ :=
      entries_of_moreEntries hmore
    rw [next_space] at hnext
    rw [← entryFlows] at hn
    exact ⟨hkey, hvalue, unsuffixed_of_entries ((key', value') :: entries) (n := n + 1) (by simp at hn ⊢; omega) hnext hes⟩

end

/-! ## Documents of one line -/

/-- A map on a line of its own is the whole block. -/
theorem block_flow (entries : List (Key × Plan)) (i start : Nat) :
    Block.block (Block.depthBound [⟨i, (Plan.map entries).flow, start⟩]) ⟨i, (Plan.map entries).flow, start⟩ [] =
      match Flow.line ⟨start, (Plan.map entries).flow⟩ with
      | .ok item => ⟨item, [], Flow.repeatedKeys item⟩
      | .error fault => ⟨.null (.point start), [], [fault]⟩ := by
  have hsequence : Line.isSequenceEntry ⟨i, (Plan.map entries).flow, start⟩ = false := rfl
  have hkeyed : Line.keyed? ⟨i, (Plan.map entries).flow, start⟩ = none := rfl
  obtain ⟨n, hn⟩ : ∃ n, Block.depthBound [⟨i, (Plan.map entries).flow, start⟩] = n + 1 :=
    ⟨_, (Nat.succ_pred_eq_of_pos (by rw [depthBound_eq]; omega)).symm⟩
  rw [hn, Block.block, if_neg (by rw [hsequence]; simp), if_neg (by rw [hkeyed]; simp)]
  unfold Block.lineValue
  simp only [Block.continuation, ite_self, List.append_nil]
  cases Flow.line ⟨start, (Plan.map entries).flow⟩ <;> simp only [Block.skipDeeper, List.append_nil]

/-- A map on a line of its own is the document. -/
theorem read_of_line {entries : List (Key × Plan)} {i : Nat} {text : List Char}
    (ht : Spells [⟨i, (Plan.map entries).flow⟩] text) :
    ∃ start, ∀ item, Item.read text = .ok item ↔
      Flow.line ⟨start, (Plan.map entries).flow⟩ = .ok item ∧ Flow.repeatedKeys item = [] := by
  obtain ⟨lines, hlines, hmap⟩ := ofDocument_of_rows ht (List.forall_mem_singleton.mpr (isRow_flow entries))
  obtain ⟨start, rest, rfl, hrest⟩ := exists_of_map_eq_cons hmap
  obtain rfl := List.map_eq_nil_iff.mp hrest
  refine ⟨start, fun item => ?_⟩
  unfold Item.read Block.ofLines
  rw [hlines]
  dsimp only
  rw [block_flow]
  cases Flow.line ⟨start, (Plan.map entries).flow⟩ with
  | error fault => simp
  | ok found =>
    cases hfaults : Flow.repeatedKeys found with
    | nil =>
      simp only [hfaults, List.append_nil, Except.ok.injEq]
      exact ⟨fun h => ⟨h, h ▸ hfaults⟩, fun h => h.1⟩
    | cons fault faults =>
      simp only [hfaults, List.append_nil, List.nil_append, Except.ok.injEq, reduceCtorEq, false_iff, not_and]
      rintro rfl hnil
      rw [hfaults] at hnil
      cases hnil

/-- The value of a line is read at its first character. -/
theorem node?_of_line {p : Place} {item : Item} (h : Flow.line p = .ok item) :
    ∃ q, Flow.node? (Flow.depthBound p.rest) .block p = .ok (some (item, q)) := by
  unfold Flow.line at h
  obtain ⟨found, hnode, h⟩ := exists_of_bind_eq_ok h
  cases found with
  | none => cases h
  | some found =>
    dsimp only at h
    split at h
    · cases h
      exact ⟨found.2, hnode⟩
    · cases h

/-- The line of a map is read as the map exactly when no key has the suffix of a sketch. -/
theorem line_iff (entries : List (Key × Plan)) (start : Nat) :
    (∃ item, Flow.line ⟨start, (Plan.map entries).flow⟩ = .ok item ∧ item.literal = (Plan.map entries).literal) ↔
      (Plan.map entries).Unsuffixed := by
  constructor
  · rintro ⟨item, hline, hl⟩
    obtain ⟨q, hnode⟩ := node?_of_line hline
    have hstart : next start (Plan.map entries).flow = ⟨start, (Plan.map entries).flow⟩ := next_text (.opening .curly) _ start
    have hbound : 2 * (Plan.map entries).flow.length ≤ Flow.depthBound (Plan.map entries).flow := by
      unfold Flow.depthBound
      omega
    have hmap : Flow.node? (Flow.depthBound (Plan.map entries).flow) .block
        (next start ((Plan.map entries).flow ++ [])) = .ok (some (item, q)) := by
      rw [List.append_nil, hstart]
      exact hnode
    exact unsuffixed_of_node? (.map entries) hbound hmap hl
  · intro h
    obtain ⟨c, hc, hs⟩ := exists_collection h
    obtain ⟨item, hline, hl⟩ := Written.line_of_spaced hs (.cons (by decide)) start
    exact ⟨item, hline, hl.trans hc⟩

/-- A layout in blocks is read as its tree. -/
theorem read_of_lines {b : Block} {i : Nat} {text : List Char} (hd : b.literal.Distinct) (ht : Spells (b.lines i) text) :
    (Item.read text).map Item.literal = .ok b.literal := by
  obtain ⟨lines, item, hlines, hroot, hl⟩ := (b.written i).exists_lines hd ht
  rw [Item.read_eq_ok hlines hroot, ← hl]
  rfl

/-- Every layout of a map in blocks is read as the map. On one line, with plain keys, it is read as
    the map exactly when no key has the suffix of a sketch. -/
theorem flow_read_iff {entries : List (Key × Plan)} (hd : (Plan.map entries).literal.Distinct) {b : Block}
    (hb : b.literal = (Plan.map entries).literal) {i j : Nat} {blockText flowText : List Char}
    (hblock : Spells (b.lines i) blockText) (hflow : Spells [⟨j, (Plan.map entries).flow⟩] flowText) :
    (Item.read blockText).map Item.literal = .ok (Plan.map entries).literal ∧
      ((Item.read flowText).map Item.literal = .ok (Plan.map entries).literal ↔ (Plan.map entries).Unsuffixed) := by
  refine ⟨hb ▸ read_of_lines (hb ▸ hd) hblock, ?_⟩
  obtain ⟨start, hread⟩ := read_of_line hflow
  rw [← line_iff entries start]
  constructor
  · intro h
    cases hitem : Item.read flowText with
    | error faults =>
      rw [hitem] at h
      cases h
    | ok item =>
      rw [hitem] at h
      exact ⟨item, ((hread item).mp hitem).1, Except.ok.inj h⟩
  · rintro ⟨item, hline, hl⟩
    rw [(hread item).mpr ⟨hline, Flow.repeatedKeys_eq_nil item (hl ▸ hd)⟩, ← hl]
    rfl

/-- A list and an empty map, below keys without the suffix. -/
def listAndMap : List (Key × Plan) :=
  [(⟨false, ['t', 'o'], false, rfl⟩, .list [.scalar (.bool true ['T', 'R', 'U', 'E'] (by decide)),
      .scalar (.null ['n', 'u', 'l', 'l'] (by decide))]),
    (⟨true, ['p'], false, rfl⟩, .map [])]

theorem flow_read_iff_listAndMap :
    (Item.read "to:\n  - TRUE\n  - null\n$p: \x7b\x7d".toList).map Item.literal =
        .ok (.map [("to", .list [.bool true, .null]), ("$p", .map [])]) ∧
      (Item.read "\x7bto: [TRUE, null], $p: \x7b\x7d\x7d # plan".toList).map Item.literal =
        .ok (.map [("to", .list [.bool true, .null]), ("$p", .map [])]) := by
  have hd : (Plan.map listAndMap).literal.Distinct :=
    ⟨by decide, ⟨trivial, trivial, trivial⟩, ⟨List.nodup_nil, trivial⟩, trivial⟩
  have hblock : Spells ((Plan.map listAndMap).block.lines 0) _ :=
    Spells.line (.blank 0) .lf <| Spells.line (.blank 0) .lf <| Spells.line (.blank 0) .lf <| Spells.lineEnd (.blank 0)
  have hflow : Spells [⟨0, (Plan.map listAndMap).flow⟩] _ :=
    Spells.lineEnd (.comment 0 (show '\n' ∉ " plan".toList by decide))
  obtain ⟨hread, hiff⟩ := flow_read_iff hd (literal_block _) hblock hflow
  have hunsuffixed : (Plan.map listAndMap).Unsuffixed :=
    ⟨rfl, ⟨trivial, trivial, trivial⟩, rfl, trivial, trivial⟩
  refine ⟨?_, ?_⟩
  · exact (congrArg (fun text => (Item.read text).map Item.literal) (by decide +kernel)).trans hread
  · exact (congrArg (fun text => (Item.read text).map Item.literal) (by decide +kernel)).trans (hiff.mpr hunsuffixed)

/-- In a block the key of a sketch keeps its suffix, in a collection the suffix begins its value. -/
theorem suffix_begins_value_in_flow :
    (Item.read "$p:sketch: ~".toList).map Item.literal = .ok (.map [("$p:sketch", .null)]) ∧
      (Item.read "\x7b$p:sketch: ~\x7d".toList).map Item.literal = .ok (.map [("$p", .text "sketch: ~")]) := by
  constructor
  · cbv
  · cbv

end Plan

end Sketchwork.Layout
