/-
  Sketchwork.Proofs.Outline.Reading — documents are read as what they lay out.

  Proved: a text that spells the lines of a layout is accepted, and the tree that is read from it
  is the one laid out, as long as no map in it names a key twice (`read_of_spells`). So it is when
  collections in it are broken between their tokens, wherever in the document they stand
  (`Written.read_of_parts`), but for scalars that the counter of brackets misreads
  (`Written.escaped_quote_ends_collection`).
-/
import Mathlib
import Sketchwork.Proofs.Outline.Blocks

namespace Sketchwork

open Layout

theorem Item.read_eq_ok {text : List Char} {lines : List Line} {item : Item} (hlines : Line.ofDocument text = (lines, []))
    (hroot : Block.ofLines lines = (item, [])) : Item.read text = .ok item := by
  unfold Item.read
  rw [hlines]
  dsimp only
  rw [hroot]
  rfl

namespace Written

/-- A text that spells the lines of a block has these lines, and they are read as its tree. -/
theorem Block.exists_lines {i : Nat} {first : List Char} {rest : List Content} {l : Literal} {text : List Char}
    (h : Block i first rest l) (hd : l.Distinct) (ht : Spells (⟨i, first⟩ :: rest) text) :
    ∃ lines item, Line.ofDocument text = (lines, []) ∧ Block.ofLines lines = (item, []) ∧ item.literal = l := by
  obtain ⟨lines, hlines, hmap⟩ := ofDocument_of_rows ht (h.rows.lines i)
  have hbound : 3 * weight (⟨i, first⟩ :: rest) ≤ Block.depthBound lines := by
    rw [depthBound_eq, hmap]
    omega
  obtain ⟨start, ls, rfl, hls⟩ := exists_of_map_eq_cons hmap
  obtain ⟨item, hitem, hl⟩ := h.reads start hls (show Stops i [] from nofun) hd hbound
  rw [List.append_nil] at hitem
  refine ⟨_, item, hlines, ?_, hl⟩
  unfold Block.ofLines
  dsimp only
  rw [hitem]
  rfl

end Written

/-- Every layout of a tree is read as this tree, at whatever column it begins and whatever idle
    lines, comments and line endings are around its lines. -/
theorem read_of_spells {b : Layout.Block} {i : Nat} {text : List Char} (hd : b.literal.Distinct)
    (ht : Spells (b.lines i) text) : ∃ item, Item.read text = .ok item ∧ item.literal = b.literal := by
  obtain ⟨lines, item, hlines, hroot, hl⟩ := (b.written i).exists_lines hd ht
  exact ⟨item, Item.read_eq_ok hlines hroot, hl⟩

/-- A value on one line, and below a key at its own column a list that begins beside its dash. -/
def Layout.pairAndList : Layout.Block :=
  .map (.cons
    (.inline ⟨false, ['a', 't'], false, rfl⟩ 0 (.list (.cons 0 (.scalar (.bool true ['T', 'r', 'u', 'e'] (by decide))) 0
      (.one 1 (.scalar (.text ⟨[.raw '#' (by decide) (by decide) (by decide), .escaped .tab]⟩)) 0))))
    (.one (.list ⟨true, ['b'], true, rfl⟩ (.one (.beside 1 (.seq (.cons (.deeper 2 (.inline (.emptyMap 1)))
      (.one (.beside 0 (.inline (.scalar (.null ['~'] (by decide)))))))))))))

theorem read_of_spells_pairAndList :
    ∃ item, Item.read "# plan\r\n  at: [True, \"#\\t\"] # pair\n \n  $b:sketch:\n  -  -\n        \x7b \x7d\n     - ~\r\n".toList =
        .ok item ∧
      item.literal = .map [("at", .list [.bool true, .text "#\t"]), ("$b:sketch", .list [.list [.map [], .null]])] := by
  have hd : pairAndList.literal.Distinct :=
    ⟨by decide, ⟨trivial, trivial, trivial⟩, ⟨⟨⟨List.nodup_nil, trivial⟩, trivial, trivial⟩, trivial⟩, trivial⟩
  have ht : Spells (pairAndList.lines 2) _ :=
    Spells.idle (.comment 0 (show '\n' ∉ " plan".toList by decide)) .crlf <|
      Spells.line (.comment 0 (show '\n' ∉ " pair".toList by decide)) .lf <|
      Spells.idle (.blank 1) .lf <|
      Spells.line (.blank 0) .lf <| Spells.line (.blank 0) .lf <| Spells.line (.blank 0) .lf <|
      Spells.line (.blank 0) .crlf <| Spells.idleEnd (.blank 0)
  obtain ⟨item, hitem, hl⟩ := read_of_spells hd ht
  exact ⟨item, (congrArg Item.read (by decide +kernel)).trans hitem, hl⟩

namespace Written

/-- A document is read as the tree it stands for, however the collections in it are broken between
    tokens, whether they stand below keys, behind dashes, in blocks at any depth or behind the key of an
    item, and whatever idle lines, comments and line endings are around its rows. -/
theorem read_of_parts {i : Nat} {first : List Char} {rest : List Content} {l : Literal} {text : List Char}
    (h : Block i first rest l) (hd : l.Distinct) (ht : Spells (⟨i, first⟩ :: rest) text) :
    ∃ item, Item.read text = .ok item ∧ item.literal = l := by
  obtain ⟨lines, item, hlines, hroot, hl⟩ := h.exists_lines hd ht
  exact ⟨item, Item.read_eq_ok hlines hroot, hl⟩

/-- A text with a bracket in it, and a map with a comma behind its entry. -/
def textAndMap : Collection :=
  .list (.cons (.word (.double ⟨[.raw ']' (by decide) (by decide) (by decide)]⟩)) (.one (.collection
    (.map (.one (.given (.single ['b']) (.word (.plain ['~'] isPlain_tilde)))) true)))) false

theorem breaks_textAndMap : Breaks 0 textAndMap ['[', '"', ']', '"', ',']
    [⟨2, ['\x7b', '\'', 'b', '\'', ':']⟩, ⟨1, ['~', ' ', ',', '\x7d']⟩, ⟨0, [']']⟩] := by
  have hword {t : Token} {ts : List Token} {s : List Char} (h : Spaced ts s) : Spaced (t :: ts) (t.text ++ s) :=
    .cons (isGap_spaces 0) h
  refine .intro (a := [.opening .square, .word (.double _), .comma]) rfl (List.cons_ne_nil _ _)
    (hword (hword (hword .nil))) (.cons (by decide)) ?_
  refine .line (a := [.opening .curly, .word (.single ['b']), .colon]) (List.cons_ne_nil _ _)
    (hword (hword (hword .nil))) (.cons (by decide)) (.inl (by decide)) ?_
  refine .line (a := [.word (.plain ['~'] isPlain_tilde), .comma, .closing .curly]) (List.cons_ne_nil _ _)
    (hword (.cons (isGap_spaces 1) (hword .nil))) (.cons (by decide)) (.inl (by decide)) ?_
  exact .line (a := [.closing .square]) (List.cons_ne_nil _ _) (hword .nil) (.cons (by decide))
    (.inr ⟨.square, [], rfl⟩) .done

theorem steady_textAndMap : ∀ t ∈ textAndMap.tokens, t.Steady := by
  have hquoted : Steady (Word.double ⟨[.raw ']' (by decide) (by decide) (by decide)]⟩ : Word false).text :=
    steady_double (by simp)
  have hkey : Steady (Word.single ['b'] : Word true).text := steady_single ['b']
  have hnull : Steady (Word.plain ['~'] isPlain_tilde).text := steady_of_chars (List.forall_mem_singleton.mpr (by decide))
  simp [textAndMap, Collection.tokens, Items.tokens, Tree.tokens, Fields.tokens, Field.tokens, ending, Token.Steady, *]

theorem clear_textAndMap : ∀ t ∈ textAndMap.tokens, t.Clear := by
  have hquoted : Clear (Word.double ⟨[.raw ']' (by decide) (by decide) (by decide)]⟩ : Word false).text := clear_double _
  have hkey : Clear (Word.single ['b'] : Word true).text := clear_single (by decide) (by decide)
  have hnull : Clear (Word.plain ['~'] isPlain_tilde).text := clear_of_chars (List.forall_mem_singleton.mpr (by decide))
  simp [textAndMap, Collection.tokens, Items.tokens, Tree.tokens, Fields.tokens, Field.tokens, ending, Token.Clear, *]

def wrappedMap : Wrapped 0 :=
  ⟨textAndMap, _, _, breaks_textAndMap, steady_textAndMap, clear_textAndMap,
    List.forall_mem_cons.mpr ⟨rfl, List.forall_mem_cons.mpr ⟨rfl, List.forall_mem_singleton.mpr rfl⟩⟩⟩

/-- A list with its item on the next line, one column deeper than what it belongs to. -/
def wrappedNull (i : Nat) : Wrapped i where
  collection := .list (.one (.word (.plain ['~'] isPlain_tilde))) false
  first := ['[']
  lines := [⟨i + 1, ['~', ']']⟩]
  breaks := by
    refine .intro (a := [.opening .square]) rfl (List.cons_ne_nil _ _) (.cons (isGap_spaces 0) .nil) (.cons (by decide)) ?_
    exact .line (a := [.word (.plain ['~'] isPlain_tilde), .closing .square]) (List.cons_ne_nil _ _)
      (.cons (isGap_spaces 0) (.cons (isGap_spaces 0) .nil)) (.cons (by decide)) (.inl (Nat.lt_succ_self i)) .done
  steady := by
    have hnull : Steady (Word.plain ['~'] isPlain_tilde).text := steady_of_chars (List.forall_mem_singleton.mpr (by decide))
    simp [Collection.tokens, Items.tokens, Tree.tokens, ending, Token.Steady, *]
  clear := by
    have hnull : Clear (Word.plain ['~'] isPlain_tilde).text := clear_of_chars (List.forall_mem_singleton.mpr (by decide))
    simp [Collection.tokens, Items.tokens, Tree.tokens, ending, Token.Clear, *]
  marker := List.forall_mem_singleton.mpr rfl

/-- Broken collections below keys, behind dashes, behind the key of an item and in a deeper block. -/
theorem read_of_parts_wrapped :
    ∃ item, Item.read ("with: [\"]\", # one\n\n  \x7b'b':\n # two\r\n ~ ,\x7d\n] \n" ++
        "on:\n- [\n ~]\n- at: [\n   ~]\n-\n  [\n   ~]").toList = .ok item ∧
      item.literal = .map [("with", .list [.text "]", .map [("b", .null)]]),
        ("on", .list [.list [.null], .map [("at", .list [.null])], .list [.null]])] := by
  have hitems : Bullets 0 _ _ _ :=
    .cons (.value 0 (.wrapped (wrappedNull 0))) <|
    .cons (.map 0 (.one (.value ⟨false, ['a', 't'], false, rfl⟩ 0 (.wrapped (wrappedNull 2))))) <|
    .one (.deeper 1 (.value (.wrapped (wrappedNull 2))))
  have hblock : Block 0 _ _ _ :=
    .map (.cons (.value ⟨false, ['w', 'i', 't', 'h'], false, rfl⟩ 0 (.wrapped wrappedMap))
      (.one (.list ⟨false, ['o', 'n'], false, rfl⟩ hitems)))
  have hd : (Literal.map [("with", .list [.text "]", .map [("b", .null)]]),
      ("on", .list [.list [.null], .map [("at", .list [.null])], .list [.null]])]).Distinct := by
    simp [Literal.Distinct, Literal.AllDistinct, Literal.EntriesDistinct]
  obtain ⟨item, hitem, hl⟩ := read_of_parts hblock hd <|
    .line (.comment 0 (show '\n' ∉ " one".toList by decide)) .lf <| .idle (.blank 0) .lf <|
    .line (.blank 0) .lf <| .idle (.comment 1 (show '\n' ∉ " two".toList by decide)) .crlf <|
    .line (.blank 0) .lf <| .line (.blank 1) .lf <|
    .line (.blank 0) .lf <| .line (.blank 0) .lf <| .line (.blank 0) .lf <| .line (.blank 0) .lf <|
    .line (.blank 0) .lf <| .line (.blank 0) .lf <| .line (.blank 0) .lf <| .lineEnd (.blank 0)
  exact ⟨item, (congrArg Item.read (by decide +kernel)).trans hitem, hl⟩

/-- Below the key of an item a line has to be deeper than the key, not only than the dash. -/
example : ((Item.read "sketch:\n- point: [~,\n ~]".toList).map Item.literal).isOk = false := by
  cbv

/-- The counter takes an escaped quote for the end of its text, so the bracket behind it counts. -/
theorem escaped_quote_ends_collection :
    (Item.read "sketch:\n  - name: [\"\\\"]\\\"\", ~]\n".toList).map Item.literal =
      .ok (.map [("sketch", .list [.map [("name", .list [.text "\"]\"", .null])]])]) ∧
    (Item.read "sketch:\n  - name: [\"\\\"]\\\"\",\n      ~]\n".toList).map Item.literal ≠
      .ok (.map [("sketch", .list [.map [("name", .list [.text "\"]\"", .null])]])]) := by
  refine ⟨by cbv, fun h => ?_⟩
  have hread : ((Item.read "sketch:\n  - name: [\"\\\"]\\\"\",\n      ~]\n".toList).map Item.literal).isOk = false := by
    cbv
  rw [h] at hread
  cases hread

end Written

end Sketchwork
