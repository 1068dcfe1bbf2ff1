/-
  Sketchwork.Proofs.Outline.Arguments — lists of arguments without quotes around them.

  An argument may hold commas and brackets of its own, as long as every comma stands in a pair of
  brackets (`Nested`). The scanner of plain scalars does not tell the three kinds of brackets from
  each other and only counts how many are open: over a nested text the count comes back to what it
  was, and on the way it is never so low that a comma or a closing bracket would end the scalar
  (`takePlain_nested`).

  Proved: a list of bare arguments on one line, with any gaps around them and with or without a
  last comma, is read as its arguments in order, each a plain scalar that stands where its range
  says (`read_arguments`).
-/
import Sketchwork.Proofs.Outline.Apostrophes
import Sketchwork.Proofs.Outline.Ranges

namespace Sketchwork.Written

open Layout (Solid Uncut entryLine)
open Text (isBlank width)

/-! ## Arguments -/

/-- The brackets of each kind. -/
def brackets : List (Char × Char) :=
  [('(', ')'), ('[', ']'), ('\x7b', '\x7d')]

/-- The brackets, and what begins a quote, a comment or a line. -/
def marks : List Char :=
  ['(', ')', '[', ']', '\x7b', '\x7d', '"', '\'', '#', '\n']

/-- A text without quotes and comments whose brackets are properly nested, with commas only in
    brackets: those of its own, or those around it if it is `inside` some. -/
inductive Nested : Bool → List Char → Prop
  | nil {inside : Bool} : Nested inside []
  | char {inside : Bool} {c : Char} {cs : List Char} (hc : c ∉ marks) (hcomma : c = ',' → inside = true)
      (h : Nested inside cs) : Nested inside (c :: cs)
  | pair {inside : Bool} {l r : Char} {body cs : List Char} (hpair : (l, r) ∈ brackets) (hbody : Nested true body)
      (h : Nested inside cs) : Nested inside (l :: (body ++ r :: cs))

/-- An argument that needs no quotes around it. -/
structure Bare (t : List Char) : Prop where
  nested : Nested false t
  first : ∃ c cs, t = c :: cs ∧ isBlank c = false ∧ c ∉ ['[', '\x7b', ':']
  last : ∀ c ∈ t.getLast?, isBlank c = false

abbrev Argument := { t : List Char // Bare t }

/-- The three kinds of brackets, one case each. -/
theorem cases_of_mem_brackets {l r : Char} (h : (l, r) ∈ brackets) :
    (l = '(' ∧ r = ')') ∨ (l = '[' ∧ r = ']') ∨ (l = '\x7b' ∧ r = '\x7d') := by
  simpa [brackets] using h

namespace Nested

variable {inside : Bool} {c : Char} {cs : List Char}

/-- Nothing in the text begins a comment or a line. -/
theorem not_mem {x : Char} (h : Nested inside cs) (hx : x ∈ ['#', '\n']) : x ∉ cs := by
  have hmark : x ∈ marks := by
    have hsub : ['#', '\n'] ⊆ marks := by decide
    exact hsub hx
  have hbracket {l r : Char} (hpair : (l, r) ∈ brackets) : x ≠ l ∧ x ≠ r := by
    rcases cases_of_mem_brackets hpair with ⟨rfl, rfl⟩ | ⟨rfl, rfl⟩ | ⟨rfl, rfl⟩ <;>
      exact ⟨fun e => absurd (e ▸ hx) (by decide), fun e => absurd (e ▸ hx) (by decide)⟩
  induction h with
  | nil => exact List.not_mem_nil
  | char hc _ _ ih =>
    rintro (_ | ⟨_, hm⟩)
    · exact hc hmark
    · exact ih hm
  | pair hpair _ _ ihbody ih =>
    obtain ⟨hl, hr⟩ := hbracket hpair
    simp [hl, hr, ihbody, ih]

/-- Characters that are no marks stand anywhere, and commas only in brackets. -/
theorem append {a : List Char} (ha : ∀ c ∈ a, c ∉ marks) (hcomma : ',' ∈ a → inside = true) (h : Nested inside cs) :
    Nested inside (a ++ cs) := by
  induction a with
  | nil => exact h
  | cons c a ih =>
    obtain ⟨hc, ha⟩ := List.forall_mem_cons.mp ha
    have hmore := ih ha fun hm => hcomma (List.mem_cons_of_mem _ hm)
    exact .char hc (fun e => hcomma (e ▸ List.mem_cons_self)) hmore

/-- Outside of brackets the text begins with no comma and no bracket that closes. -/
theorem head (h : Nested false (c :: cs)) : c ∉ [']', '\x7d', ',', '"', '\''] := by
  cases h with
  | char hc hcomma _ =>
    have hne : c ≠ ',' := fun e => Bool.false_ne_true (hcomma e)
    simp only [marks, List.mem_cons, not_or] at hc
    simp [hc, hne]
  | pair hpair _ _ =>
    rcases cases_of_mem_brackets hpair with ⟨rfl, -⟩ | ⟨rfl, -⟩ | ⟨rfl, -⟩ <;> decide

end Nested

/-! ## The two counters -/

/-- The scanner of plain scalars takes a nested text whole, and as many brackets are open behind it
    as before. Commas are taken between brackets only, so some have to be open if they may occur. -/
theorem takePlain_nested {inside : Bool} {cs : List Char} (h : Nested inside cs) {d : Nat} (hd : inside = true → d ≠ 0)
    (p : Char) :
    ∃ q, ∀ r, Flow.takePlain false d none p (cs ++ r) = cs ++ Flow.takePlain false d none q r := by
  induction h generalizing d p with
  | nil => exact ⟨p, fun _ => rfl⟩
  | @char inside c cs hc hcomma _ ih =>
    obtain ⟨q, hq⟩ := ih hd c
    have hstop : c = ',' → d ≠ 0 := fun e => hd (hcomma e)
    simp only [marks, List.mem_cons, List.not_mem_nil, or_false, not_or] at hc
    refine ⟨q, fun r => ?_⟩
    rw [List.cons_append, Flow.takePlain]
    simpa [Flow.opensQuote, hc, hq r] using hstop
  | @pair inside l r body cs hpair _ _ ihbody ih =>
    obtain ⟨q, hq⟩ := ihbody (d := d + 1) (fun _ => Nat.succ_ne_zero d) l
    obtain ⟨q', hq'⟩ := ih hd r
    have hopen (rest : List Char) : Flow.takePlain false d none p (l :: rest) = l :: Flow.takePlain false (d + 1) none l rest := by
      rcases cases_of_mem_brackets hpair with ⟨rfl, -⟩ | ⟨rfl, -⟩ | ⟨rfl, -⟩ <;> simp [Flow.takePlain, Flow.opensQuote]
    have hclose (rest : List Char) : Flow.takePlain false (d + 1) none q (r :: rest) = r :: Flow.takePlain false d none r rest := by
      rcases cases_of_mem_brackets hpair with ⟨-, rfl⟩ | ⟨-, rfl⟩ | ⟨-, rfl⟩ <;> simp [Flow.takePlain, Flow.opensQuote]
    refine ⟨q', fun rest => ?_⟩
    calc Flow.takePlain false d none p (l :: (body ++ r :: cs) ++ rest)
        = l :: Flow.takePlain false (d + 1) none l (body ++ (r :: (cs ++ rest))) := by
          rw [List.cons_append, hopen, List.append_assoc, List.cons_append]
      _ = l :: (body ++ r :: Flow.takePlain false d none r (cs ++ rest)) := by rw [hq, hclose]
      _ = l :: (body ++ r :: cs) ++ Flow.takePlain false d none q' rest := by
          rw [hq', List.cons_append, List.append_assoc, List.cons_append]

/-- The counter of brackets that go on over the next lines comes back to what it was as well; it
    counts no round ones. -/
theorem depthAfter_nested {inside : Bool} {cs : List Char} (h : Nested inside cs) (p : Char) :
    ∃ q, ∀ d r, Flow.depthAfter d none p (cs ++ r) = Flow.depthAfter d none q r := by
  induction h generalizing p with
  | nil => exact ⟨p, fun _ _ => rfl⟩
  | @char inside c cs hc hcomma _ ih =>
    obtain ⟨q, hq⟩ := ih c
    simp only [marks, List.mem_cons, List.not_mem_nil, or_false, not_or] at hc
    refine ⟨q, fun d r => ?_⟩
    rw [List.cons_append, depthAfter_cons]
    simp [Flow.opensQuote, hc, hq]
  | @pair inside l r body cs hpair _ _ ihbody ih =>
    obtain ⟨q, hq⟩ := ihbody l
    obtain ⟨q', hq'⟩ := ih r
    refine ⟨q', fun d rest => ?_⟩
    rw [List.cons_append, List.append_assoc, List.cons_append]
    rcases cases_of_mem_brackets hpair with ⟨rfl, rfl⟩ | ⟨rfl, rfl⟩ | ⟨rfl, rfl⟩ <;>
      simp [depthAfter_cons, Flow.opensQuote, hq, hq']

namespace Bare

variable {t : List Char} (h : Bare t)
include h

theorem isPlain : IsPlain false t := by
  obtain ⟨c, cs, rfl, hblank, hfirst⟩ := h.first
  have hhead := h.nested.head
  simp only [List.mem_cons, List.not_mem_nil, or_false, not_or] at hfirst hhead
  refine ⟨⟨c, cs, rfl, ?_, hblank⟩, h.last, takePlain_nested h.nested (fun e => absurd e Bool.false_ne_true) ' '⟩
  simp [reserved, hfirst, hhead]

theorem steady : Steady t :=
  fun p _ => depthAfter_nested h.nested p

end Bare

/-! ## Lists of arguments -/

variable {comma : Bool} {text : List Char} {texts : List Argument}

/-- An argument of a list. -/
def Tree.ofArgument (t : Argument) : Tree :=
  .word (.plain t.1 t.2.isPlain)

def Items.ofArguments (t : Argument) : List Argument → Items
  | [] => .one (.ofArgument t)
  | u :: more => .cons (.ofArgument t) (.ofArguments u more)

/-- A list of arguments, with a comma behind the last one or not. -/
def Collection.ofArguments (comma : Bool) : List Argument → Collection
  | [] => .emptyList comma
  | t :: more => .list (.ofArguments t more) comma

theorem Items.mem_tokens_ofArguments {t : Argument} {more : List Argument} :
    ∀ token ∈ (Items.ofArguments t more).tokens, token = .comma ∨ ∃ (u : Argument), token = .word (.plain u.1 u.2.isPlain) := by
  induction more generalizing t with
  | nil => exact List.forall_mem_singleton.mpr (.inr ⟨t, rfl⟩)
  | cons u more ih => exact List.forall_mem_cons.mpr ⟨.inr ⟨t, rfl⟩, List.forall_mem_cons.mpr ⟨.inl rfl, ih⟩⟩

/-- The tokens of a list are marks of the list, and arguments. -/
theorem Collection.mem_tokens_ofArguments :
    ∀ token ∈ (Collection.ofArguments comma texts).tokens,
      token ∈ [Token.opening .square, .closing .square, .comma] ∨ ∃ (u : Argument), token = .word (.plain u.1 u.2.isPlain) := by
  have hending : ∀ token ∈ ending .square comma, token ∈ [Token.opening .square, .closing .square, .comma] := by
    cases comma <;> simp [ending]
  cases texts with
  | nil =>
    exact List.forall_mem_cons.mpr ⟨.inl (by simp), fun token h => .inl (hending token h)⟩
  | cons t more =>
    refine List.forall_mem_cons.mpr ⟨.inl (by simp), fun token h => ?_⟩
    rcases List.mem_append.mp h with h | h
    · exact (Items.mem_tokens_ofArguments token h).imp_left fun e => by simp [e]
    · exact .inl (hending token h)

/-- A list of arguments stays on its line and has no comment. -/
theorem not_mem_ofArguments (hs : Spaced (Collection.ofArguments comma texts).tokens text)
    {x : Char} (hx : x ∈ ['#', '\n']) : x ∉ text := by
  have hlist : x ∉ [' ', '\t', '[', ']', ','] := by
    simp only [List.mem_cons, List.not_mem_nil, or_false] at hx
    rcases hx with rfl | rfl <;> decide
  simp only [List.mem_cons, List.not_mem_nil, or_false, not_or] at hlist
  refine hs.not_mem (by simp [hlist]) fun token htoken => ?_
  rcases Collection.mem_tokens_ofArguments token htoken with hmark | ⟨u, rfl⟩
  · simp only [List.mem_cons, List.not_mem_nil, or_false] at hmark
    rcases hmark with rfl | rfl | rfl <;> simp [Token.text, Bracket.open_, Bracket.close, hlist]
  · exact u.2.nested.not_mem hx

/-- The counter of brackets passes over a list of arguments. -/
theorem depthAfter_ofArguments (hs : Spaced (Collection.ofArguments comma texts).tokens text) :
    Flow.depthAfter 0 none ' ' text = 0 := by
  have hsteady : ∀ token ∈ (Collection.ofArguments comma texts).tokens, token.Steady := by
    intro token htoken
    rcases Collection.mem_tokens_ofArguments token htoken with hmark | ⟨u, rfl⟩
    · simp only [List.mem_cons, List.not_mem_nil, or_false] at hmark
      rcases hmark with rfl | rfl | rfl <;> trivial
    · exact u.2.steady
  have hsep : Separated true ((Collection.ofArguments comma texts).tokens ++ []) := Collection.separated _ trivial
  rw [List.append_nil] at hsep
  rw [depthAfter_spaced hs hsteady hsep (fun _ => by decide), (Collection.closes _).total]

/-! ## Reading -/

/-- The items that these texts are read as, each from where it stands in the text of a place. -/
def ReadFrom (source : Place) (texts : List Argument) (items : List Item) : Prop :=
  List.Forall₂ (fun t item => source.Shows item.span t.1 ∧ item = Flow.resolve t.1 item.span) texts items

/-- What stands in the value of an entry stands in the entry. -/
theorem ReadFrom.of_value {key : Layout.Key} {gap : Nat} {items : List Item}
    (h : ReadFrom ⟨Layout.valueStart key gap, text⟩ texts items) : ReadFrom ⟨0, entryLine key gap text⟩ texts items := by
  have hover : Place.Over ⟨0, entryLine key gap text⟩ (key.text ++ ':' :: Layout.spaces (gap + 1))
      ⟨Layout.valueStart key gap, text⟩ :=
    ⟨Layout.entryLine_eq_append key gap text, (Nat.zero_add _).symm⟩
  exact h.imp fun _ _ hitem => ⟨hover.shows hitem.1, hitem.2⟩

theorem node?_argument (t : Argument) {r : List Char} (hr : Behind false r) (n pos : Nat) :
    Flow.node? (n + 1) .item ⟨pos, t.1 ++ r⟩ =
      .ok (some (Flow.resolve t.1 (.between pos (pos + width t.1)), ⟨pos + width t.1, r⟩)) := by
  have hplain : Flow.plain? .item ⟨pos, t.1 ++ r⟩ = some (t.1, ⟨pos + width t.1, r⟩) := plain?_of_isPlain t.2.isPlain hr pos
  have hquoted : Flow.quoted? ⟨pos, t.1 ++ r⟩ = .ok none := quoted?_of_isPlain t.2.isPlain pos r
  obtain ⟨c, cs, hc, -, hfirst⟩ := t.2.first
  simp only [List.mem_cons, not_or] at hfirst
  have hnode : Flow.node? (n + 1) .item ⟨pos, t.1 ++ r⟩ = Flow.scalar? .item ⟨pos, t.1 ++ r⟩ := by
    rw [hc]
    exact Layout.node?_of_ne hfirst.1 hfirst.2.1 n .item pos (cs ++ r)
  rw [hnode, Flow.scalar?, hquoted]
  show Except.ok ((Flow.plain? .item ⟨pos, t.1 ++ r⟩).map _) = _
  rw [hplain]
  rfl

/-- An argument behind a gap is read, and what is left is behind it. -/
theorem reads_argument {source : Place} {t : Argument} {s r : List Char} (hs : Spaced (Tree.ofArgument t).tokens s)
    (hr : Behind false r) (n : Nat) {pos : Nat} (hleads : source.Leads (next pos (s ++ r))) :
    ∃ item q, Flow.node? (n + 1) .item (next pos (s ++ r)) = .ok (some (item, ⟨q, r⟩)) ∧ source.Leads ⟨q, r⟩ ∧
      source.Shows item.span t.1 ∧ item = Flow.resolve t.1 item.span := by
  obtain ⟨gap, s, rfl, hgap, hs⟩ := hs.exists_of_cons
  cases hs
  have hplace : next pos (gap ++ ((Token.word (.plain t.1 t.2.isPlain)).text ++ []) ++ r) = ⟨pos + width gap, t.1 ++ r⟩ := by
    rw [List.append_nil, List.append_assoc]
    exact next_gap hgap (.word (.plain t.1 t.2.isPlain)) r pos
  rw [hplace] at hleads ⊢
  have hover := Place.over_append (pos + width gap) t.1 r
  have hspan := Flow.span_resolve t.1 (.between (pos + width gap) (pos + width gap + width t.1))
  exact ⟨_, _, node?_argument t hr n (pos + width gap), hleads.trans ⟨_, hover⟩,
    Flow.shows_of_over hleads hover hspan, by rw [hspan]⟩

/-- The arguments are read one by one, up to what ends the list. -/
theorem items_arguments {source : Place} : ∀ (more : List Argument) (t : Argument) {n : Nat} {s u r : List Char},
    Spaced (Items.ofArguments t more).tokens s → Spaced (ending .square comma) u →
    2 * (Items.ofArguments t more).tokens.length ≤ n → ∀ pos, source.Leads (next pos (s ++ (u ++ r))) →
    ∃ its q, Flow.items n (next pos (s ++ (u ++ r))) = .ok (its, next q (u ++ r)) ∧ ReadFrom source (t :: more) its
  | [], t, n, s, u, r, hs, hu, hn, pos, hleads => by
    obtain ⟨n, rfl⟩ : ∃ m, n = m + 2 := ⟨n - 2, (Nat.sub_add_cancel hn).symm⟩
    obtain ⟨item, q, hnode, -, hitem⟩ := reads_argument hs (behind_ending hu r) n hleads
    exact ⟨[item], q, Layout.items_cons hnode (moreItems_ending hu (n + 1) q r), .cons hitem .nil⟩
  | v :: more, t, n, s, u, r, hs, hu, hn, pos, hleads => by
    obtain ⟨n, rfl, hmore⟩ : ∃ m, n = m + 2 ∧ 2 * (Items.ofArguments v more).tokens.length ≤ m + 1 :=
      ⟨n - 2, by simp [Items.ofArguments, Items.tokens, Tree.ofArgument, Tree.tokens] at hn; omega⟩
    obtain ⟨a, s', rfl, ha, hs'⟩ := hs.exists_of_append
    have hbehind := behind_of_spaced hs' (.inl rfl) (u ++ r)
    obtain ⟨gap, w, rfl, hgap, hw⟩ := hs'.exists_of_cons
    rw [List.append_assoc] at hleads ⊢
    obtain ⟨item, q, hnode, hleads, hitem⟩ := reads_argument ha hbehind n hleads
    -- behind the argument comes the comma, and behind the comma the next one
    have hcomma : next q (gap ++ (Token.comma.text ++ w) ++ (u ++ r)) = ⟨q + width gap, ',' :: (w ++ (u ++ r))⟩ := by
      rw [List.append_assoc]
      exact next_gap hgap .comma (w ++ (u ++ r)) q
    have hnext : source.Leads (next (q + width gap + 1) (w ++ (u ++ r))) := by
      have hgone := hleads.trans (Place.leads_skipSpaces _)
      rw [show Place.skipSpaces _ = _ from hcomma] at hgone
      exact (hgone.trans (Place.leads_cons rfl _)).trans (Place.leads_skipSpaces _)
    obtain ⟨its, q', hits, hread⟩ := items_arguments more v hw hu hmore (q + width gap + 1) hnext
    refine ⟨item :: its, q', Layout.items_cons hnode ?_, .cons hitem hread⟩
    rw [show Place.skipSpaces _ = _ from hcomma]
    obtain ⟨first, its, rfl⟩ : ∃ first more, its = first :: more := by
      cases hread with
      | cons => exact ⟨_, _, rfl⟩
    exact Layout.moreItems_of_items hits

/-- A list of arguments is read as its arguments. -/
theorem line_arguments (hs : Spaced (Collection.ofArguments comma texts).tokens text)
    (hfirst : Solid text) (start : Nat) :
    ∃ items span, Flow.line ⟨start, text⟩ = .ok (.seq items span) ∧ ReadFrom ⟨start, text⟩ texts items := by
  have hlen := length_tokens_le hs
  obtain ⟨n, hn⟩ : ∃ n, Flow.depthBound text = n + 1 := ⟨4 * text.length + 3, rfl⟩
  have hbound : 2 * (Collection.ofArguments comma texts).tokens.length ≤ n := by
    simp only [Flow.depthBound] at hn
    omega
  have hnode : ∃ items span q, Flow.node? (n + 1) .block ⟨start, text⟩ = .ok (some (.seq items span, ⟨q, []⟩)) ∧
      ReadFrom ⟨start, text⟩ texts items := by
    cases texts with
    | nil =>
      obtain ⟨u, rfl, hu⟩ := hs.exists_of_solid hfirst
      obtain ⟨q, hclose⟩ := close_ending hu start (start + 1) []
      have hopen : Flow.node? (n + 1) .block ⟨start, '[' :: (u ++ [])⟩ = _ := node?_open (items_ending hu n _ []) hclose
      rw [List.append_nil] at hopen
      exact ⟨[], _, q, hopen, .nil⟩
    | cons t more =>
      obtain ⟨s', rfl, hs'⟩ := hs.exists_of_solid hfirst
      obtain ⟨s, u, rfl, hs, hu⟩ := hs'.exists_of_append
      have hleads : Place.Leads ⟨start, '[' :: (s ++ u)⟩ (next (start + 1) (s ++ (u ++ []))) := by
        rw [List.append_nil]
        exact (Place.leads_cons rfl _).trans (Place.leads_skipSpaces _)
      have hbound : 2 * (Items.ofArguments t more).tokens.length ≤ n := by
        simp only [Collection.ofArguments, Collection.tokens, List.length_cons, List.length_append] at hbound
        omega
      obtain ⟨its, q, hits, hread⟩ := items_arguments more t hs hu hbound (start + 1) hleads
      obtain ⟨q', hclose⟩ := close_ending hu start q []
      have hopen : Flow.node? (n + 1) .block ⟨start, '[' :: (s ++ (u ++ []))⟩ = _ := node?_open hits hclose
      rw [List.append_nil] at hopen
      exact ⟨its, _, q', hopen, hread⟩
  obtain ⟨items, span, q, hnode, hread⟩ := hnode
  refine ⟨items, span, ?_, hread⟩
  unfold Flow.line
  simp only [hn, hnode, bind, Except.bind]
  rfl

/-- Nothing is reported about arguments: none of them has keys. -/
theorem repeatedKeys_arguments {source : Place} {items : List Item}
    (h : ReadFrom source texts items) (span : Span) : Flow.repeatedKeys (.seq items span) = [] := by
  rw [Flow.repeatedKeys]
  induction h with
  | nil => rfl
  | @cons t item _ _ hitem _ ih =>
    have hscalar : Flow.repeatedKeys item = [] := by
      rw [hitem.2]
      rcases Flow.resolve_cases t.1 item.span with h | ⟨b, h⟩ | ⟨x, h⟩ | h <;> rw [h] <;> rfl
    rw [Flow.repeatedInItems, hscalar, ih]
    rfl

/-- A list of arguments stays on its line: it is closed there, whatever lines come next. -/
theorem lineValue_arguments (hs : Spaced (Collection.ofArguments comma texts).tokens text)
    (hfirst : Solid text) (start indent : Nat) (rest : List Line) :
    ∃ items span, Block.lineValue text start indent rest = ⟨.seq items span, rest, []⟩ ∧ ReadFrom ⟨start, text⟩ texts items := by
  obtain ⟨items, span, hline, hread⟩ := line_arguments hs hfirst start
  have hdepth := depthAfter_ofArguments hs
  obtain ⟨s, rfl⟩ : ∃ s, text = Bracket.square.open_ :: s := by
    cases texts <;> exact ⟨_, (hs.exists_of_solid hfirst).choose_spec.1⟩
  have hcontinuation := continuation_zero indent (start + width (Bracket.square.open_ :: s)) rest
  rw [← hdepth] at hcontinuation
  have hvalue := lineValue_open hcontinuation (by rw [List.append_nil]; exact hline)
  rw [repeatedKeys_arguments hread] at hvalue
  exact ⟨items, span, hvalue, hread⟩

/-- A list of bare arguments, with any gaps around them and with or without a comma behind the last
    one, is read as its arguments: as the value of an entry, and wherever else a value stands on a
    line, in front of any other lines. -/
theorem read_arguments (key : Layout.Key) (gap : Nat) (texts : List Argument) (comma : Bool) {text : List Char}
    (hs : Spaced (Collection.ofArguments comma texts).tokens text) (hfirst : Solid text) :
    (∃ items keySpan listSpan span,
      Item.read (entryLine key gap text) = .ok (.map [(⟨key.value, keySpan⟩, .seq items listSpan)] span) ∧
        ReadFrom ⟨0, entryLine key gap text⟩ texts items) ∧
    ∀ (start indent : Nat) (rest : List Line), ∃ items span,
      Block.lineValue text start indent rest = ⟨.seq items span, rest, []⟩ ∧ ReadFrom ⟨start, text⟩ texts items := by
  refine ⟨?_, lineValue_arguments hs hfirst⟩
  have hlast := isBlank_getLast?_spaced hs
  have hcomment := withoutComment_of_not_mem (not_mem_ofArguments hs (by decide)) none ' '
  have hbreak : '\n' ∉ text := not_mem_ofArguments hs (by decide)
  obtain ⟨c, kept, rfl⟩ : ∃ c kept, text = c :: kept := by
    cases texts <;> exact ⟨_, _, (hs.exists_of_solid hfirst).choose_spec.1⟩
  obtain ⟨keySpan, hlines⟩ := Layout.ofLines_entryLine key gap hfirst (List.cons_ne_nil _ _)
  obtain ⟨items, listSpan, hvalue, hread⟩ := lineValue_arguments hs hfirst (Layout.valueStart key gap) 0 []
  obtain ⟨span, hroot⟩ := hlines hvalue
  refine ⟨items, keySpan, listSpan, span, ?_, hread.of_value⟩
  rw [Item.read, Layout.ofDocument_entryLine key gap hbreak hlast (hfirst c rfl) hcomment,
    Layout.cons_trimEnd (hfirst c rfl) hlast]
  dsimp only
  rw [hroot]
  rfl

/-- A call with commas, brackets and another call in it is one argument, and the name behind it the
    next one. -/
theorem read_arguments_call : ∃ (call name : Argument) (text : List Char),
    call.1 = "max($a, f(b[0], 2))".toList ∧ name.1 = "x".toList ∧ text = "[ max($a, f(b[0], 2)) , x, ]".toList ∧
    Spaced (Collection.ofArguments true [call, name]).tokens text ∧ Solid text ∧
    ∃ items keySpan listSpan span,
      Item.read "k: [ max($a, f(b[0], 2)) , x, ]".toList = .ok (.map [(⟨"k", keySpan⟩, .seq items listSpan)] span) ∧
        ReadFrom ⟨0, "k: [ max($a, f(b[0], 2)) , x, ]".toList⟩ [call, name] items := by
  have hindex : Nested true ('[' :: (['0'] ++ ']' :: [',', ' ', '2'])) :=
    .pair (by decide) (.append (a := ['0']) (by simp [marks]) (by decide) .nil)
      (.append (a := [',', ' ', '2']) (by simp [marks]) (fun _ => rfl) .nil)
  have hbody : Nested true (['$', 'a', ',', ' ', 'f'] ++ '(' :: (['b', '[', '0', ']', ',', ' ', '2'] ++ [')'])) :=
    .append (by simp [marks]) (fun _ => rfl)
      (.pair (by decide) (.append (a := ['b']) (by simp [marks]) (by decide) hindex) .nil)
  have hcall : Bare (['m', 'a', 'x'] ++ '(' :: (['$', 'a', ',', ' ', 'f', '(', 'b', '[', '0', ']', ',', ' ', '2', ')'] ++ [')'])) :=
    ⟨.append (by simp [marks]) (by decide) (.pair (by decide) hbody .nil), ⟨_, _, rfl, by decide, by decide⟩, by rintro _ ⟨⟩; rfl⟩
  have hname : Bare ['x'] :=
    ⟨.append (a := ['x']) (by simp [marks]) (by decide) .nil, ⟨_, _, rfl, by decide, by decide⟩, by rintro _ ⟨⟩; rfl⟩
  have hnext (n : Nat) {t : Token} {ts : List Token} {s : List Char} (h : Spaced ts s) :
      Spaced (t :: ts) (Layout.spaces n ++ (t.text ++ s)) :=
    .cons (isGap_spaces n) h
  have hs : Spaced (Collection.ofArguments true [⟨_, hcall⟩, ⟨_, hname⟩]).tokens _ :=
    hnext 0 (hnext 1 (hnext 1 (hnext 1 (hnext 0 (hnext 1 .nil)))))
  exact ⟨⟨_, hcall⟩, ⟨_, hname⟩, _, rfl, rfl, rfl, hs, .cons rfl,
    (read_arguments ⟨false, ['k'], false, rfl⟩ 0 _ true hs (.cons rfl)).1⟩

end Sketchwork.Written
