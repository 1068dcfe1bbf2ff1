/-
  Sketchwork.Proofs.Outline.LineBreaks — which keys and texts have a line break in them.

  A text between quotes is read from the lines of a collection after they were joined, and the count
  of open brackets begins each line outside of quotes. So a quote left open at the end of a line does
  not end the collection: a later line closes it, and the gap between is part of the text
  (`quote_closed_on_a_later_line`).

  Proved: a key or text is written on one line, or it is part of a value that opens with a bracket, and
  at every line end in that value a bracket is still counted as open (`breaks_only_in_brackets`).
-/
import Mathlib
import Sketchwork.Proofs.Outline.Placement

namespace Sketchwork

open Text (width)

namespace Item

/-! ## Parts of a tree -/

/-- The parts of a tree: it is one itself, and so is every item and value, with its own parts. -/
inductive Has : Item → Item → Prop
  | self (item : Item) : Has item item
  | item {items : List Item} {span : Span} {item part : Item} (hmem : item ∈ items) (h : Has item part) :
      Has (.seq items span) part
  | value {entries : List Entry} {span : Span} {e : Entry} {part : Item} (hmem : e ∈ entries) (h : Has e.2 part) :
      Has (.map entries span) part

/-- A range of a key, or of a text, in a tree. -/
def Names (root : Item) (s : Span) : Prop :=
  (∃ content quoted, root.Has (.text content quoted s)) ∨
    ∃ entries span, root.Has (.map entries span) ∧ ∃ e ∈ entries, e.1.span = s

variable {key : Spanned String → Prop} {leaf : Item → Prop} {root : Item} {s : Span}

theorem Names.of_seq {items : List Item} {span : Span} (h : (Item.seq items span).Names s) :
    ∃ item ∈ items, item.Names s := by
  rcases h with ⟨content, quoted, h⟩ | ⟨entries, span, h, he⟩
  · cases h with
    | item hmem h => exact ⟨_, hmem, .inl ⟨content, quoted, h⟩⟩
  · cases h with
    | item hmem h => exact ⟨_, hmem, .inr ⟨entries, span, h, he⟩⟩

theorem Names.of_map {entries : List Entry} {span : Span} (h : (Item.map entries span).Names s) :
    (∃ e ∈ entries, e.1.span = s) ∨ ∃ e ∈ entries, e.2.Names s := by
  rcases h with ⟨content, quoted, h⟩ | ⟨entries', span, h, he⟩
  · cases h with
    | value hmem h => exact .inr ⟨_, hmem, .inl ⟨content, quoted, h⟩⟩
  · cases h with
    | self => exact .inl he
    | value hmem h => exact .inr ⟨_, hmem, .inr ⟨entries', span, h, he⟩⟩

/-- A key or text of a tree is a good key, or it is in a leaf. -/
theorem Laid.key_or_leaf (h : root.Laid key leaf) (hs : root.Names s) :
    (∃ k, key k ∧ k.span = s) ∨ ∃ value, leaf value ∧ root.Has value ∧ value.Names s := by
  induction h with
  | nothing at_ =>
    rcases hs with ⟨content, quoted, hs⟩ | ⟨entries, span, hs, -⟩ <;> cases hs
  | leaf h => exact .inr ⟨_, h, .self _, hs⟩
  | seq _ _ ih =>
    obtain ⟨item, hmem, hs⟩ := hs.of_seq
    exact (ih item hmem hs).imp_right fun ⟨value, hvalue, hhas, hnames⟩ => ⟨value, hvalue, .item hmem hhas, hnames⟩
  | map hkeys _ _ ih =>
    rcases hs.of_map with ⟨e, hmem, hspan⟩ | ⟨e, hmem, hs⟩
    · exact .inl ⟨e.1, hkeys e hmem, hspan⟩
    · exact (ih e hmem hs).imp_right fun ⟨value, hvalue, hhas, hnames⟩ => ⟨value, hvalue, .value hmem hhas, hnames⟩

end Item

namespace Flow

/-- A scalar has no key or text but itself. -/
theorem Written.span_eq {p : Place} {scalar : Item} {s : Span} (h : Written p scalar) (hs : scalar.Names s) :
    scalar.span = s := by
  have hscalar : (∀ items span, scalar ≠ .seq items span) ∧ ∀ entries span, scalar ≠ .map entries span := by
    obtain ⟨part, -, -, hspells⟩ := h
    rcases scalar?_cases hspells with ⟨content, -, heq⟩ | ⟨word, -, -, heq⟩
    · rw [heq]
      exact ⟨nofun, nofun⟩
    · generalize Span.between _ _ = at_ at heq
      rcases resolve_cases word at_ with hw | ⟨b, hw⟩ | ⟨x, hw⟩ | hw <;> rw [heq, hw] <;> exact ⟨nofun, nofun⟩
  rcases hs with ⟨content, quoted, hs⟩ | ⟨entries, span, hs, -⟩
  · cases hs with
    | self => rfl
    | item => exact absurd rfl (hscalar.1 _ _)
    | value => exact absurd rfl (hscalar.2 _ _)
  · cases hs with
    | self => exact absurd rfl (hscalar.2 _ _)
    | item => exact absurd rfl (hscalar.1 _ _)
    | value => exact absurd rfl (hscalar.2 _ _)

end Flow

/-- A key or text of a value stands in the document, in the range of the value. -/
theorem Block.Spreads.names {source blanked : Place} {value : Item} {whole joined : List Char} {s : Span}
    (h : Spreads source blanked value whole joined) (hs : value.Names s) :
    ∃ written, source.Shows s written ∧ s.Within value.span.start value.span.stop ∧ ('\n' ∈ written → '\n' ∈ whole) := by
  obtain ⟨part, hshows, hinked⟩ : ∃ part, Place.Shows ⟨value.span.start, joined⟩ s part ∧ Text.Inked part := by
    rcases h.laid.key_or_leaf hs with ⟨k, ⟨part, hshows, hinked, -⟩, rfl⟩ | ⟨scalar, hscalar, -, hs⟩
    · exact ⟨part, hshows, hinked⟩
    · obtain ⟨part, hshows, hinked, -⟩ := id hscalar
      rw [← hscalar.span_eq hs]
      exact ⟨part, hshows, hinked⟩
  obtain ⟨written, hwritten, -, hbreak⟩ := h.stands hshows hinked
  refine ⟨written, hwritten, ?_, hbreak⟩
  obtain ⟨before, behind, hjoined, hstart, hstop⟩ := hshows
  obtain ⟨-, -, -, -, hend⟩ := h.blanked
  have hwidth := congrArg width hjoined
  simp only [Text.width_append] at hwidth
  constructor <;> simp only at hstart hwidth <;> omega

/-- A key or text of a document is written on one line, or in a value that opens with a bracket and
    goes on over the line ends in it. -/
theorem Item.breaks_only_in_brackets {text : List Char} {root : Item} (h : Item.read text = .ok root) {s : Span}
    (hs : root.Names s) :
    ∃ written, Place.Shows ⟨0, text⟩ s written ∧ ('\n' ∈ written → ∃ value whole joined, root.Has value ∧
      s.Within value.span.start value.span.stop ∧ '\n' ∈ whole ∧ (whole.head? = some '[' ∨ whole.head? = some '\x7b') ∧
      Block.Spreads ⟨0, text⟩ ⟨0, Line.flat text⟩ value whole joined) := by
  rcases (Item.read_placed h).key_or_leaf hs with ⟨k, hk, rfl⟩ | ⟨value, ⟨whole, joined, hvalue⟩, hhas, hs⟩
  · exact ⟨_, hk.shows, fun hbreak => absurd hbreak hk.newline⟩
  · obtain ⟨written, hshows, hwithin, hbreak⟩ := hvalue.names hs
    exact ⟨written, hshows, fun hmem => ⟨value, whole, joined, hhas, hwithin, hbreak hmem, hvalue.opens (hbreak hmem), hvalue⟩⟩

/-- A list over two lines: the text in it opens on the first of them and closes on the second. -/
def Item.openList : List Char :=
  "a: [\"b\n c\"]".toList

def Item.openListTree : Item :=
  .map [(⟨"a", .between 0 1⟩, .seq [.text "b  c" true (.between 4 10)] (.between 3 11))] (.between 0 11)

theorem Item.read_openList : Item.read openList = .ok openListTree := by
  cbv

theorem Item.names_openList : openListTree.Names (.between 4 10) :=
  .inl ⟨"b  c", true, .value (List.mem_singleton.mpr rfl) (.item (List.mem_singleton.mpr rfl) (.self _))⟩

theorem Item.breaks_only_in_brackets_openList :
    Item.read openList = .ok openListTree ∧ openListTree.Names (.between 4 10) ∧
      ∃ written, Place.Shows ⟨0, openList⟩ (.between 4 10) written ∧ ('\n' ∈ written → ∃ value whole joined,
        openListTree.Has value ∧ (Span.between 4 10).Within value.span.start value.span.stop ∧ '\n' ∈ whole ∧
        (whole.head? = some '[' ∨ whole.head? = some '\x7b') ∧
        Block.Spreads ⟨0, openList⟩ ⟨0, Line.flat openList⟩ value whole joined) :=
  ⟨Item.read_openList, Item.names_openList, Item.breaks_only_in_brackets Item.read_openList Item.names_openList⟩

/-- A quote left open at the end of its line is no fault in a collection that goes on. -/
theorem Item.quote_closed_on_a_later_line :
    ¬∀ (text : List Char) (root : Item) (content : String) (s : Span) (written : List Char), Item.read text = .ok root →
      root.Has (.text content true s) → Place.Shows ⟨0, text⟩ s written → '\n' ∉ written := by
  intro hall
  have hhas : openListTree.Has (.text "b  c" true (.between 4 10)) :=
    .value (List.mem_singleton.mpr rfl) (.item (List.mem_singleton.mpr rfl) (.self _))
  have hshows : Place.Shows ⟨0, openList⟩ (.between 4 10) "\"b\n c\"".toList :=
    ⟨"a: [".toList, "]".toList, rfl, rfl, rfl⟩
  exact hall openList openListTree "b  c" (.between 4 10) "\"b\n c\"".toList Item.read_openList hhas hshows (by decide)

end Sketchwork
