/-
  Sketchwork.Proofs.Outline.Ranges — the parts of a value lie one behind the other.

  Reading from one place to another it passes the ranges of what it returns, each behind the
  one before (`Place.Past`). `Laying n` says of the readers of a collection with `n` nested
  readers left that what they return is laid out so in the text they read, down to its scalars
  and keys, which are written where their ranges say; each reader keeps it (`laying`).

  Proved: the value on a line begins where the line does, and is laid out on it (`line_laid`).
-/
import Sketchwork.Proofs.Outline.Scalars

namespace Sketchwork

open Text (width)

/-! ## Ranges in order -/

/-- Ranges one behind the other, from `lo` on and by `hi`. -/
def Span.Ordered (lo : Nat) : List Span → Nat → Prop
  | [], hi => lo ≤ hi
  | s :: more, hi => lo ≤ s.start ∧ Ordered s.stop more hi

namespace Span.Ordered

variable {lo lo' mid hi hi' : Nat} {s : Span} {a b : List Span}

theorem le (h : Span.Ordered lo a hi) : lo ≤ hi := by
  induction a generalizing lo with
  | nil => exact h
  | cons s a ih => exact h.1.trans (s.ordered.trans (ih h.2))

theorem mono (h : Span.Ordered lo a hi) (hlo : lo' ≤ lo) (hhi : hi ≤ hi') : Span.Ordered lo' a hi' := by
  induction a generalizing lo lo' with
  | nil => exact hlo.trans (h.trans hhi)
  | cons s a ih => exact ⟨hlo.trans h.1, ih h.2 (Nat.le_refl _)⟩

theorem append (h : Span.Ordered lo a mid) (h' : Span.Ordered mid b hi) : Span.Ordered lo (a ++ b) hi := by
  induction a generalizing lo with
  | nil => exact h'.mono h (Nat.le_refl _)
  | cons s a ih => exact ⟨h.1, ih h.2⟩

/-- Every one of the ranges lies between the two ends. -/
theorem within (h : Span.Ordered lo a hi) : ∀ s ∈ a, s.Within lo hi := by
  induction a generalizing lo with
  | nil => exact fun _ hs => absurd hs List.not_mem_nil
  | cons t a ih =>
    refine List.forall_mem_cons.mpr ⟨⟨h.1, h.2.le⟩, fun s hs => ?_⟩
    exact (ih h.2 s hs).mono (h.1.trans t.ordered) (Nat.le_refl _)

/-- The ranges end with the last one. -/
theorem concat (h : Span.Ordered lo (a ++ [s]) hi) : Span.Ordered lo (a ++ [s]) s.stop ∧ s.stop ≤ hi := by
  induction a generalizing lo with
  | nil => exact ⟨⟨h.1, Nat.le_refl _⟩, h.2⟩
  | cons t a ih =>
    obtain ⟨hbefore, hstop⟩ := ih h.2
    exact ⟨⟨h.1, hbefore⟩, hstop⟩

end Span.Ordered

/-- The ranges of an entry: that of its key, and that of its value. -/
def Item.Entry.spans (e : Item.Entry) : List Span :=
  [e.1.span, e.2.span]

/-- A tree in which the parts of every list and map lie one behind the other in its range, down to
    good keys and good leaves; what is left out is null and takes no room. -/
inductive Item.Laid (key : Spanned String → Prop) (leaf : Item → Prop) : Item → Prop
  | nothing (at_ : Nat) : Laid key leaf (.null (.point at_))
  | leaf {item : Item} (h : leaf item) : Laid key leaf item
  | seq {items : List Item} {span : Span} (hitems : ∀ item ∈ items, Laid key leaf item)
      (hspans : Span.Ordered span.start (items.map Item.span) span.stop) : Laid key leaf (.seq items span)
  | map {entries : List Item.Entry} {span : Span} (hkeys : ∀ e ∈ entries, key e.1)
      (hvalues : ∀ e ∈ entries, Laid key leaf e.2)
      (hspans : Span.Ordered span.start (entries.flatMap Item.Entry.spans) span.stop) : Laid key leaf (.map entries span)

/-- The texts of a tree are those of its leaves. -/
theorem Item.Laid.texts {key : Spanned String → Prop} {leaf good : Item → Prop} {item : Item} (h : item.Laid key leaf)
    (hleaf : ∀ value, leaf value → value.Texts good) : item.Texts good := by
  induction h with
  | nothing at_ => exact .null _
  | leaf h => exact hleaf _ h
  | seq _ _ ih => exact .seq _ ih
  | map _ _ _ ih => exact .map _ ih

namespace Place

variable {p q r : Place} {a b : List Span}

theorem Leads.pos_le (h : p.Leads q) : p.pos ≤ q.pos := by
  obtain ⟨part, hover⟩ := h
  rw [hover.pos]
  exact Nat.le_add_right ..

theorem Leads.start_between (h : p.Leads q) : (Span.between p.pos q.pos).start = p.pos :=
  Nat.min_eq_left h.pos_le

theorem Leads.stop_between (h : p.Leads q) : (Span.between p.pos q.pos).stop = q.pos :=
  Nat.max_eq_right h.pos_le

/-- What stands in front of a place that reading has come to stands in the whole text. -/
theorem Leads.shows {pos : Nat} {part behind : List Char} {s : Span} (h : p.Leads ⟨pos, part ++ behind⟩)
    (hstart : s.start = pos) (hstop : s.stop = pos + width part) : p.Shows s part := by
  obtain ⟨front, hfront⟩ := h
  exact hfront.shows ⟨[], behind, rfl, hstart, by rw [hstop, hstart]⟩

/-- From one place reading has come to another past ranges that lie one behind the other. -/
structure Past (p : Place) (spans : List Span) (q : Place) : Prop where
  leads : p.Leads q
  ordered : Span.Ordered p.pos spans q.pos

namespace Past

theorem nil (p : Place) : p.Past [] p :=
  ⟨.refl p, Nat.le_refl _⟩

theorem between (h : p.Leads q) : p.Past [.between p.pos q.pos] q :=
  ⟨h, h.start_between.ge, h.stop_between.le⟩

theorem trans (h : p.Past a q) (h' : q.Past b r) : p.Past (a ++ b) r :=
  ⟨h.leads.trans h'.leads, h.ordered.append h'.ordered⟩

theorem behind (hp : p.Leads q) (h : q.Past a r) : p.Past a r :=
  ⟨hp.trans h.leads, h.ordered.mono hp.pos_le (Nat.le_refl _)⟩

theorem before (h : p.Past a q) (hq : q.Leads r) : p.Past a r :=
  ⟨h.leads.trans hq, h.ordered.mono (Nat.le_refl _) hq.pos_le⟩

end Past

end Place

namespace Flow

/-! ## Keys -/

/-- Characters that are read as a key. -/
def SpellsKey (part : List Char) (key : Spanned String) : Prop :=
  key? ⟨key.span.start, part⟩ = .ok (some (key, ⟨key.span.stop, []⟩))

/-- A key stands in the text of a place and is what is written there. -/
def KeyWritten (p : Place) (key : Spanned String) : Prop :=
  ∃ part, p.Shows key.span part ∧ Text.Inked part ∧ SpellsKey part key

/-- A front of a plain scalar is read from its characters alone. -/
theorem takePlain_of_isPrefix {isKey : Bool} {depth : Nat} {quote : Option Char} {previous : Char} {cs front : List Char}
    (h : front <+: takePlain isKey depth quote previous cs) : takePlain isKey depth quote previous front = front := by
  fun_induction takePlain isKey depth quote previous cs generalizing front with
  | case1 | case6 | case7 => rw [List.prefix_nil.mp h, takePlain]
  | case2 depth previous c cs q ih =>
    obtain rfl | ⟨front, rfl, hfront⟩ := List.prefix_cons_iff.mp h
    · rfl
    · rw [takePlain, ih hfront]
  | case3 depth previous c cs hopens ih =>
    obtain rfl | ⟨front, rfl, hfront⟩ := List.prefix_cons_iff.mp h
    · rfl
    · rw [takePlain, if_pos hopens, ih hfront]
  | case4 depth previous c cs hquote hopens ih =>
    obtain rfl | ⟨front, rfl, hfront⟩ := List.prefix_cons_iff.mp h
    · rfl
    · rw [takePlain, if_neg hquote, if_pos hopens, ih hfront]
  | case5 depth previous c cs hquote hopens hcloses ih =>
    obtain rfl | ⟨front, rfl, hfront⟩ := List.prefix_cons_iff.mp h
    · rfl
    · rw [takePlain, if_neg hquote, if_neg hopens, if_pos hcloses, ih hfront]
  | case8 depth previous c cs hquote hopens hcloses hstops hcolon ih =>
    obtain rfl | ⟨front, rfl, hfront⟩ := List.prefix_cons_iff.mp h
    · rfl
    · rw [takePlain, if_neg hquote, if_neg hopens, if_neg hcloses, if_neg hstops, if_neg hcolon, ih hfront]

theorem plain?_key_again {p q : Place} {word : List Char} (h : plain? .key p = some (word, q)) :
    plain? .key ⟨p.pos, word⟩ = some (word, ⟨q.pos, []⟩) := by
  obtain ⟨-, -, hagain⟩ := plain?_over h
  have hfront : takePlain true 0 none ' ' word = word := by
    suffices hprefix : word <+: takePlain true 0 none ' ' p.rest from takePlain_of_isPrefix hprefix
    unfold plain? at h
    split at h
    · cases h
    · dsimp only at h
      split at h
      · cases h
      · cases h
        exact trimEnd_isPrefix _
  unfold plain? at hagain ⊢
  dsimp only at hagain ⊢
  rwa [hfront]

/-- A key is read from its characters alone. -/
theorem key?_over {p q : Place} {key : Spanned String} (hhead : p.rest.head? ≠ some ' ')
    (h : key? p = .ok (some (key, q))) :
    ∃ part, p.Over part q ∧ Text.Inked part ∧ key.span = .between p.pos q.pos ∧ SpellsKey part key := by
  have spells {part : List Char} (hover : p.Over part q) (hspan : key.span = .between p.pos q.pos)
      (hagain : key? ⟨p.pos, part⟩ = .ok (some (key, ⟨q.pos, []⟩))) : SpellsKey part key := by
    obtain ⟨hstart, hstop⟩ := between_of_over hover
    rw [SpellsKey, hspan, hstart, hstop]
    exact hagain
  obtain ⟨r, hquoted, h⟩ := exists_of_bind_eq_ok h
  cases r with
  | some r =>
    obtain ⟨s, q'⟩ := r
    cases h
    obtain ⟨part, hover, hinked, hagain⟩ := quoted?_over hquoted
    refine ⟨part, hover, hinked, rfl, spells hover rfl ?_⟩
    rw [key?, hagain]
    rfl
  | none =>
    obtain ⟨⟨word, q'⟩, hplain, heq⟩ := Option.map_eq_some_iff.mp (Except.ok.inj h)
    cases heq
    obtain ⟨hover, hinked, -⟩ := plain?_over hplain
    have hword : word.head? = p.rest.head? := by
      rw [hover.rest, List.head?_append_of_ne_nil _ (hinked hhead).ne_nil]
    refine ⟨word, hover, hinked hhead, rfl, spells hover rfl ?_⟩
    rw [key?, quoted?_eq_none_of_head hquoted hword]
    show Except.ok ((plain? .key ⟨p.pos, word⟩).map _) = _
    rw [plain?_key_again hplain]
    rfl

/-! ## Collections -/

theorem Written.texts {p : Place} {scalar : Item} (h : Written p scalar) : scalar.Texts (Written p) := by
  obtain ⟨part, hshows, hinked, hspells⟩ := h
  exact texts_of_scalar? hspells ⟨part, hshows, hinked, hspells⟩

/-- A value is laid out in the text of a place. -/
abbrev LaidIn (source : Place) (item : Item) : Prop :=
  item.Laid (KeyWritten source) (Written source)

/-- An entry is laid out in the text of a place. -/
structure EntryLaidIn (source : Place) (e : Item.Entry) : Prop where
  key : KeyWritten source e.1
  value : LaidIn source e.2

/-- What stands from a place on stands in the whole text. -/
theorem shows_of_over {source p q : Place} {part : List Char} (hp : source.Leads p) (h : p.Over part q) {span : Span}
    (hspan : span = .between p.pos q.pos) : source.Shows span part := by
  obtain ⟨hstart, hstop⟩ := between_of_over h
  have hleads : source.Leads ⟨p.pos, part ++ q.rest⟩ := by
    rw [← h.rest]
    exact hp
  refine hleads.shows ?_ ?_
  · rw [hspan, hstart]
  · rw [hspan, hstop, h.pos]

/-- The readers of a collection in the text of a place, `n` deep: they pass what they return, and it
    is laid out there. -/
structure Laying (source : Place) (n : Nat) : Prop where
  node? {context : Context} {p q : Place} {item : Item} (hp : source.Leads p) (hhead : p.rest.head? ≠ some ' ')
    (h : node? n context p = .ok (some (item, q))) :
    LaidIn source item ∧ item.span = .between p.pos q.pos ∧ p.Leads q
  items {p q : Place} {found : List Item} (hp : source.Leads p) (hhead : p.rest.head? ≠ some ' ')
    (h : items n p = .ok (found, q)) : (∀ item ∈ found, LaidIn source item) ∧ p.Past (found.map Item.span) q
  moreItems {p q : Place} {found : List Item} (hp : source.Leads p) (h : moreItems n p = .ok (found, q)) :
    (∀ item ∈ found, LaidIn source item) ∧ p.Past (found.map Item.span) q
  entry {p q : Place} {e : Item.Entry} (hp : source.Leads p) (hhead : p.rest.head? ≠ some ' ')
    (h : ( entry? n p) = .ok (some (e, q))) :
    EntryLaidIn source e ∧ p.Past e.spans q
  entries {p q : Place} {found : List Item.Entry} (hp : source.Leads p) (hhead : p.rest.head? ≠ some ' ')
    (h : entries n p = .ok (found, q)) : (∀ e ∈ found, EntryLaidIn source e) ∧ p.Past (found.flatMap Item.Entry.spans) q
  moreEntries {p q : Place} {found : List Item.Entry} (hp : source.Leads p) (h : moreEntries n p = .ok (found, q)) :
    (∀ e ∈ found, EntryLaidIn source e) ∧ p.Past (found.flatMap Item.Entry.spans) q

section

variable {source p : Place}

theorem nothing_laid {α : Type} {good : α → Prop} (p : Place) : (∀ a ∈ ([] : List α), good a) ∧ p.Past [] p :=
  ⟨fun _ ha => absurd ha List.not_mem_nil, .nil p⟩

theorem laying_zero : Laying source 0 where
  node? _ _ h := by cases h
  items _ _ h := by
    cases h
    exact nothing_laid _
  moreItems _ h := by
    cases h
    exact nothing_laid _
  entry _ _ h := by cases h
  entries _ _ h := by
    cases h
    exact nothing_laid _
  moreEntries _ h := by
    cases h
    exact nothing_laid _

variable {n : Nat} (ih : Laying source n) {q : Place} (hp : source.Leads p)
include ih hp

theorem node?_laid {context : Context} {item : Item} (hhead : p.rest.head? ≠ some ' ')
    (h : node? (n + 1) context p = .ok (some (item, q))) :
    LaidIn source item ∧ item.span = .between p.pos q.pos ∧ p.Leads q := by
  have hopen {c : Char} {cs : List Char} (hc : c.utf8Size = 1) (hrest : p.rest = c :: cs) :
      p.Leads (Place.skipSpaces ⟨p.pos + 1, cs⟩) := by
    obtain ⟨pos, rest⟩ := p
    obtain rfl : rest = c :: cs := hrest
    exact (Place.leads_cons hc cs).trans (Place.leads_skipSpaces _)
  have hordered {spans : List Span} {q : Place} (h : p.Past spans q) :
      Span.Ordered (Span.between p.pos q.pos).start spans (Span.between p.pos q.pos).stop := by
    rw [h.leads.start_between, h.leads.stop_between]
    exact h.ordered
  unfold node? at h
  split at h
  · rename_i cs hrest
    obtain ⟨⟨found, q₁⟩, hitems, h⟩ := exists_of_bind_eq_ok h
    obtain ⟨q₂, hclose, h⟩ := exists_of_bind_eq_ok h
    have hinside := hopen rfl hrest
    obtain ⟨hfound, hpast⟩ := ih.items (hp.trans hinside) (Place.skipSpaces_head _) hitems
    have hwhole := (hpast.behind hinside).before (close_leads rfl hclose)
    cases h
    exact ⟨.seq hfound (hordered hwhole), rfl, hwhole.leads⟩
  · rename_i cs hrest
    obtain ⟨⟨found, q₁⟩, hentries, h⟩ := exists_of_bind_eq_ok h
    obtain ⟨q₂, hclose, h⟩ := exists_of_bind_eq_ok h
    have hinside := hopen rfl hrest
    obtain ⟨hfound, hpast⟩ := ih.entries (hp.trans hinside) (Place.skipSpaces_head _) hentries
    have hwhole := (hpast.behind hinside).before (close_leads rfl hclose)
    cases h
    exact ⟨.map (fun e he => (hfound e he).key) (fun e he => (hfound e he).value) (hordered hwhole), rfl, hwhole.leads⟩
  · obtain ⟨part, hover, hinked, hspan, hspells⟩ := scalar?_over hhead h
    exact ⟨.leaf ⟨part, shows_of_over hp hover hspan, hinked, hspells⟩, hspan, part, hover⟩

/-- An item, spaces, and the items behind it. -/
theorem items_of_item {item : Item} {more : List Item} {next q₁ q₂ : Place} (hnext : p.Leads next)
    (hhead : next.rest.head? ≠ some ' ') (hnode : node? n .item next = .ok (some (item, q₁)))
    (hmore : moreItems n q₁.skipSpaces = .ok (more, q₂)) :
    (∀ i ∈ item :: more, LaidIn source i) ∧ p.Past ((item :: more).map Item.span) q₂ := by
  obtain ⟨hitem, hspan, hleads⟩ := ih.node? (hp.trans hnext) hhead hnode
  have hq₁ : next.Leads q₁.skipSpaces := hleads.trans (Place.leads_skipSpaces _)
  obtain ⟨hitems, hpast⟩ := ih.moreItems ((hp.trans hnext).trans hq₁) hmore
  refine ⟨List.forall_mem_cons.mpr ⟨hitem, hitems⟩, ?_⟩
  rw [List.map_cons, hspan]
  exact ((Place.Past.between hleads).behind hnext).trans (hpast.behind (Place.leads_skipSpaces _))

theorem items_laid {found : List Item} (hhead : p.rest.head? ≠ some ' ') (h : items (n + 1) p = .ok (found, q)) :
    (∀ item ∈ found, LaidIn source item) ∧ p.Past (found.map Item.span) q := by
  unfold items at h
  obtain ⟨r, hnode, h⟩ := exists_of_bind_eq_ok h
  cases r with
  | none =>
    cases h
    exact nothing_laid p
  | some r =>
    obtain ⟨⟨more, q₂⟩, hmore, h⟩ := exists_of_bind_eq_ok h
    cases h
    exact items_of_item ih hp (.refl p) hhead hnode hmore

theorem moreItems_laid {found : List Item} (h : moreItems (n + 1) p = .ok (found, q)) :
    (∀ item ∈ found, LaidIn source item) ∧ p.Past (found.map Item.span) q := by
  unfold moreItems at h
  split at h
  · cases h
    exact nothing_laid p
  · rename_i next hcomma
    obtain ⟨hnext, hhead⟩ := comma?_leads hcomma
    obtain ⟨r, hnode, h⟩ := exists_of_bind_eq_ok h
    cases r with
    | none =>
      cases h
      exact nothing_laid p
    | some r =>
      obtain ⟨⟨more, q₂⟩, hmore, h⟩ := exists_of_bind_eq_ok h
      cases h
      exact items_of_item ih hp hnext hhead hnode hmore

theorem entry?_laid {e : Item.Entry} (hhead : p.rest.head? ≠ some ' ') (h : ( entry? (n + 1) p) = .ok (some (e, q))) :
    EntryLaidIn source e ∧ p.Past e.spans q := by
  unfold entry? at h
  obtain ⟨r, hkey, h⟩ := exists_of_bind_eq_ok h
  cases r with
  | none => cases h
  | some r =>
    obtain ⟨key, q₁⟩ := r
    obtain ⟨part, hover, hinked, hspan, hspells⟩ := key?_over hhead hkey
    have hwritten : KeyWritten source key := ⟨part, shows_of_over hp hover hspan, hinked, hspells⟩
    have hpast : p.Past [key.span] q₁.skipSpaces := by
      rw [hspan]
      exact (Place.Past.between ⟨part, hover⟩).before (Place.leads_skipSpaces _)
    dsimp only at h
    generalize q₁.skipSpaces = q₁ at h hpast
    obtain ⟨pos, rest⟩ := q₁
    split at h
    · rename_i cs hrest
      obtain rfl : rest = ':' :: cs := hrest
      have hcolon : Place.Leads ⟨pos, ':' :: cs⟩ (Place.skipSpaces ⟨pos + 1, cs⟩) :=
        (Place.leads_cons rfl cs).trans (Place.leads_skipSpaces _)
      have hvalue := hpast.before hcolon
      obtain ⟨r, hnode, h⟩ := exists_of_bind_eq_ok h
      cases r with
      | none =>
        cases h
        refine ⟨⟨hwritten, .nothing _⟩, (hvalue.trans ⟨.refl _, ?_⟩).before (Place.leads_skipSpaces _)⟩
        exact ⟨Nat.le_refl _, Nat.le_refl _⟩
      | some r =>
        obtain ⟨hitem, hspan, hleads⟩ := ih.node? (hp.trans hvalue.leads) (Place.skipSpaces_head _) hnode
        cases h
        refine ⟨⟨hwritten, hitem⟩, ?_⟩
        show p.Past ([key.span] ++ [_]) _
        rw [hspan]
        exact (hvalue.trans (.between hleads)).before (Place.leads_skipSpaces _)
    · cases h

/-- An entry and the entries behind it. -/
theorem entries_of_entry {e : Item.Entry} {more : List Item.Entry} {next q₁ q₂ : Place} (hnext : p.Leads next)
    (hhead : next.rest.head? ≠ some ' ') (hentry : ( entry? n next) = .ok (some (e, q₁))) (hmore : moreEntries n q₁ = .ok (more, q₂)) :
    (∀ e' ∈ e :: more, EntryLaidIn source e') ∧ p.Past ((e :: more).flatMap Item.Entry.spans) q₂ := by
  obtain ⟨he, hpast⟩ := ih.entry (hp.trans hnext) hhead hentry
  obtain ⟨hentries, hmore⟩ := ih.moreEntries ((hp.trans hnext).trans hpast.leads) hmore
  refine ⟨List.forall_mem_cons.mpr ⟨he, hentries⟩, ?_⟩
  rw [List.flatMap_cons]
  exact (hpast.behind hnext).trans hmore

theorem entries_laid {found : List Item.Entry} (hhead : p.rest.head? ≠ some ' ') (h : entries (n + 1) p = .ok (found, q)) :
    (∀ e ∈ found, EntryLaidIn source e) ∧ p.Past (found.flatMap Item.Entry.spans) q := by
  unfold entries at h
  obtain ⟨r, hentry, h⟩ := exists_of_bind_eq_ok h
  cases r with
  | none =>
    cases h
    exact nothing_laid p
  | some r =>
    obtain ⟨⟨more, q₂⟩, hmore, h⟩ := exists_of_bind_eq_ok h
    cases h
    exact entries_of_entry ih hp (.refl p) hhead hentry hmore

theorem moreEntries_laid {found : List Item.Entry} (h : moreEntries (n + 1) p = .ok (found, q)) :
    (∀ e ∈ found, EntryLaidIn source e) ∧ p.Past (found.flatMap Item.Entry.spans) q := by
  unfold moreEntries at h
  split at h
  · cases h
    exact nothing_laid p
  · rename_i next hcomma
    obtain ⟨hnext, hhead⟩ := comma?_leads hcomma
    obtain ⟨r, hentry, h⟩ := exists_of_bind_eq_ok h
    cases r with
    | none =>
      cases h
      exact nothing_laid p
    | some r =>
      obtain ⟨⟨more, q₂⟩, hmore, h⟩ := exists_of_bind_eq_ok h
      cases h
      exact entries_of_entry ih hp hnext hhead hentry hmore

end

theorem laying (source : Place) (n : Nat) : Laying source n := by
  induction n with
  | zero => exact laying_zero
  | succ n ih =>
    exact {
      node? := fun hp hhead h => node?_laid ih hp hhead h
      items := fun hp hhead h => items_laid ih hp hhead h
      moreItems := fun hp h => moreItems_laid ih hp h
      entry := fun hp hhead h => entry?_laid ih hp hhead h
      entries := fun hp hhead h => entries_laid ih hp hhead h
      moreEntries := fun hp h => moreEntries_laid ih hp h }

/-- The value on a line begins where the line does, is laid out on it, and has nothing but spaces and
    tabs behind it. -/
theorem line_laid {p : Place} {item : Item} (hhead : p.rest.head? ≠ some ' ') (h : line p = .ok item) :
    LaidIn p item ∧ ∃ q, item.span = .between p.pos q.pos ∧ p.Leads q ∧ q.skipSpaces.rest = [] := by
  obtain ⟨r, hnode, h⟩ := exists_of_bind_eq_ok h
  cases r with
  | none => cases h
  | some r =>
    obtain ⟨item', q⟩ := r
    obtain ⟨hlaid, hspan, hleads⟩ := (laying p _).node? (.refl p) hhead hnode
    dsimp only at h
    split at h
    · rename_i hempty
      cases h
      exact ⟨hlaid, q, hspan, hleads, List.isEmpty_iff.mp hempty⟩
    · cases h

end Flow

end Sketchwork
