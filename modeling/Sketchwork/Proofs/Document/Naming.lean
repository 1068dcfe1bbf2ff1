/-
  Sketchwork.Proofs.Document.Naming — any text can be given to a sketch as its name.

  A text goes through two layers of quotes on its way into a document: it is written as a text
  of the expression language, and this as a scalar of the document. Three scanners see the
  result, the search for comments, the reader of scalars and the reader of expressions, and all
  have to agree on where each escape ends.

  Proved: whatever the text, the document that names with it is accepted, and evaluating it adds
  one child, whose name is the text (`evaluate_naming`). The name is given by a call, so there
  has to be a feature `name` and a level to call it on; without them evaluation fails
  (`naming_needs_a_call`).
-/
import Sketchwork.Proofs.Document.Acceptance
import Sketchwork.Proofs.Expr.Lexemes
import Sketchwork.Proofs.Feature.Effects
import Sketchwork.Proofs.Outline.Reading

namespace Sketchwork

open Text (width)

/-! ## Texts of the expression language -/

namespace Lexer

/-- A character between double quotes, escaped where it has to be. -/
def writtenChar (c : Char) : List Char :=
  if c = '"' ∨ c = '\\' then ['\\', c] else [c]

/-- A text as an expression. -/
def writtenText (cs : List Char) : List Char :=
  '"' :: (cs.flatMap writtenChar ++ ['"'])

theorem tokenize_writtenText (offset : Nat) (cs : List Char) : tokenize offset (writtenText cs) =
    .ok [⟨.text (String.ofList cs), .sized offset (width (writtenText cs))⟩] :=
  tokenize_quoted (.inl rfl) cs offset

end Lexer

theorem Parser.expression_text (whole span : Span) (s : String) :
    Parser.expression whole [⟨.text s, span⟩] = .ok (.text s span) := by
  rfl

/-- A text that is written as an expression is read as this text, wherever it stands. -/
theorem Expr.read_writtenText (offset : Nat) (cs : List Char) : ∃ span,
    Expr.read offset (Lexer.writtenText cs) = .ok (.text (String.ofList cs) span) := by
  exact ⟨_, by rw [Expr.read_of_tokenize (Lexer.tokenize_writtenText offset cs), Parser.expression_text]⟩

/-! ## Texts of a document -/

namespace Layout

/-- A character between the double quotes of a scalar, escaped where it has to be. -/
def Spelled.ofChar (c : Char) : Spelled :=
  if hquote : c = '"' then .escaped .quote
  else if hbackslash : c = '\\' then .escaped .backslash
  else if hnewline : c = '\n' then .escaped .newline
  else if c = '\r' then .escaped .return_
  else .raw c hquote hbackslash hnewline

theorem Spelled.value_ofChar (c : Char) : (Spelled.ofChar c).value = c := by
  unfold ofChar
  split
  · rename_i h
    exact h.symm
  split
  · rename_i h
    exact h.symm
  split
  · rename_i h
    exact h.symm
  split
  · rename_i h
    exact h.symm
  · rfl

/-- A text as a scalar of a document. -/
def Quoted.ofText (cs : List Char) : Quoted :=
  ⟨cs.map Spelled.ofChar⟩

theorem Quoted.value_ofText (cs : List Char) : (Quoted.ofText cs).value = String.ofList cs := by
  have hvalue : Spelled.value ∘ Spelled.ofChar = id := funext Spelled.value_ofChar
  rw [ofText, value, List.map_map, hvalue, List.map_id]

/-- A document of one step, which is given one scalar. -/
def naming (q : Quoted) : Block :=
  .map (.one (.list ⟨false, "sketch".toList, false, by decide⟩
    (.one (.beside 0 (.map (.one (.inline ⟨false, "name".toList, false, by decide⟩ 0 (.scalar (.text q)))))))))

theorem literal_naming (q : Quoted) :
    (naming q).literal = .map [("sketch", .list [.map [("name", .text q.value)]])] := by
  rfl

theorem distinct_naming (q : Quoted) : (naming q).literal.Distinct := by
  rw [literal_naming]
  exact ⟨List.nodup_singleton _, ⟨⟨List.nodup_singleton _, trivial, trivial⟩, trivial⟩, trivial⟩

end Layout

/-- The document that names a sketch with a text. -/
def naming (s : String) : String :=
  String.ofList ("sketch:\n- name: ".toList ++ ((Layout.Quoted.ofText (Lexer.writtenText s.toList)).text ++ ['\n']))

example : naming "\"#" = "sketch:\n- name: \"\\\"\\\\\\\"#\\\"\"\n" := by decide +kernel

theorem spells_naming (s : String) :
    Layout.Spells ((Layout.naming (.ofText (Lexer.writtenText s.toList))).lines 0) (naming s).toList := by
  have htext : (naming s).toList =
      "sketch:\n- name: ".toList ++ ((Layout.Quoted.ofText (Lexer.writtenText s.toList)).text ++ ['\n']) :=
    String.toList_ofList
  rw [htext]
  exact .line (l := ⟨0, "sketch:".toList⟩) (.blank 0) .lf
    (.line (l := ⟨0, "- name: ".toList ++ Layout.Quoted.text _⟩) (.blank 0) .lf (.idleEnd (.blank 0)))

theorem exists_of_literal_map {item : Item} {k : String} {l : Literal} (h : item.literal = .map [(k, l)]) :
    ∃ key value span, item = .map [(key, value)] span ∧ key.value = k ∧ value.literal = l := by
  cases item with
  | map entries span =>
    injection h with h
    rw [Layout.literalEntries_eq_map] at h
    obtain ⟨⟨key, value⟩, rfl, hentry⟩ := List.map_eq_singleton_iff.mp h
    exact ⟨key, value, span, rfl, congrArg Prod.fst hentry, congrArg Prod.snd hentry⟩
  | _ => cases h

theorem exists_of_literal_list {item : Item} {l : Literal} (h : item.literal = .list [l]) :
    ∃ value span, item = .seq [value] span ∧ value.literal = l := by
  cases item with
  | seq items span =>
    injection h with h
    rw [Layout.literals_eq_map] at h
    obtain ⟨value, rfl, hvalue⟩ := List.map_eq_singleton_iff.mp h
    exact ⟨value, span, rfl, hvalue⟩
  | _ => cases h

theorem exists_of_literal_text {item : Item} {s : String} (h : item.literal = .text s) :
    ∃ quoted span, item = .text s quoted span := by
  cases item with
  | text s' quoted span =>
    cases h
    exact ⟨quoted, span, rfl⟩
  | _ => cases h

theorem isBlank_writtenText (cs : List Char) :
    (Text.trim (String.ofList (Lexer.writtenText cs)).toList).isEmpty = false := by
  rw [← Bool.not_eq_true, Document.isEmpty_trim_iff]
  intro hblank
  have hquote : Text.isBlank '"' = false := by decide
  have hmem : '"' ∈ (String.ofList (Lexer.writtenText cs)).toList := by
    rw [String.toList_ofList]
    exact List.mem_cons_self
  rw [hblank '"' hmem] at hquote
  cases hquote

/-- The one step calls `name` with the text. -/
theorem ofItem_naming {item : Item} {cs : List Char}
    (h : item.literal = .map [("sketch", .list [.map [("name", .text (String.ofList (Lexer.writtenText cs)))]])]) :
    ∃ key span range, key.value = "name" ∧
      Document.ofItem item = .ok ⟨[], [], ⟨[.call key [.expr (.text (String.ofList cs) span)]], range⟩⟩ := by
  obtain ⟨key, chain, span, rfl, hkey, hchain⟩ := exists_of_literal_map h
  obtain ⟨step, range, rfl, hstep⟩ := exists_of_literal_list hchain
  obtain ⟨key', value, span', rfl, hkey', hvalue⟩ := exists_of_literal_map hstep
  obtain ⟨quoted, place, rfl⟩ := exists_of_literal_text hvalue
  generalize hscalar : Item.text (String.ofList (Lexer.writtenText cs)) quoted place = scalar
  obtain ⟨e, he⟩ := Expr.read_writtenText scalar.contentStart cs
  have harg : Document.stepArgs scalar = ⟨[.expr (.text (String.ofList cs) e)], []⟩ := by
    subst hscalar
    show (⟨[(Document.argOfText _ _).value], (Document.argOfText _ _).faults⟩ : Document.Part _) = _
    rw [Document.argOfText, isBlank_writtenText, String.toList_ofList, he]
    rfl
  have hcall : ¬(key'.value == Document.nestedStep) = true := by
    rw [hkey']
    decide
  have hread : Document.readChain (.seq [.map [(key', scalar)] span'] range) =
      ⟨⟨[.call key' [.expr (.text (String.ofList cs) e)]], range⟩, []⟩ := by
    rw [Document.readChain, Document.steps, Document.stepItems, Document.step?, if_neg hcall, harg, Document.stepItems]
    rfl
  have hadd : Document.Sections.add {} (key, .seq [.map [(key', scalar)] span'] range) =
      { sketch := some ⟨[.call key' [.expr (.text (String.ofList cs) e)]], range⟩ } := by
    rw [Document.add_sketch {} (show (key, _).1.value = "sketch" from hkey), hread]
    rfl
  refine ⟨key', e, range, hkey', Document.ofItem_map_eq_ok_iff.mpr ?_⟩
  simp only [List.foldl_cons, List.foldl_nil, List.flatMap_cons, List.flatMap_nil, Document.sectionFaults, hadd]
  exact ⟨⟨rfl, rfl⟩, rfl⟩

/-- The document is read, and its one step calls `name` with the text. -/
theorem read_naming (s : String) : ∃ (key : Spanned String) (span range : Span), key.value = "name" ∧
    Document.read (naming s) = .ok ⟨[], [], ⟨[.call key [.expr (.text s span)]], range⟩⟩ := by
  obtain ⟨lines, item, hlines, hblock, hliteral⟩ :=
    ((Layout.naming _).written 0).exists_lines (Layout.distinct_naming _) (spells_naming s)
  have hitem : Item.read (naming s).toList = .ok item := Item.read_eq_ok hlines hblock
  rw [Layout.literal_naming, Layout.Quoted.value_ofText] at hliteral
  obtain ⟨key, span, range, hkey, hdocument⟩ := ofItem_naming hliteral
  rw [String.ofList_toList] at hdocument
  refine ⟨key, span, range, hkey, ?_⟩
  rw [Document.read, hitem]
  exact hdocument

/-! ## Evaluation -/

/-- The node that was given a name by a call, and nothing else. -/
def named (id : NodeId) (s : String) : Node :=
  { Node.empty id with name := s, provenance := .stamped "name" }

theorem dispatch_name {registry : Registry} (hname : Assoc.get? registry "name" = some (.builtin .name)) (levels : Nat)
    (s : String) (id : NodeId) (w : World) :
    registry.dispatch (levels + 1) "name" [.text s] (.empty id) w =
      (.ok (named id s), { w with next := w.next + 1 }) := by
  rw [Registry.dispatch_succ hname]
  rfl

/-- A chain of one call is evaluated by the call, on a fresh node that becomes the last child. -/
theorem evaluate_call {key : Spanned String} {s : String} {span range : Span} (call : Dispatch) (args : List Value)
    (node : Node) (w : World) :
    (⟨[], [], ⟨[.call key [.expr (.text s span)]], range⟩⟩ : Document).evaluate call args node w =
      match call key.value [.text s] (.empty ⟨w.next⟩) { w with next := w.next + 1 } with
      | (.ok built, w) => (.ok (node.add [built]), w)
      | (.error e, w) => (.error e, w) := by
  have hargs (scope : Scope) : Arg.evalAll scope [.expr (.text s span)] = .ok [.text s] := rfl
  simp only [Document.evaluate, Document.bindParameters, Document.bindReferences, Chain.run, Step.run, Step.runAll,
    hargs, Eval.bind_apply, Eval.pure_apply, Eval.fresh_apply, Eval.ofExcept_apply]
  rcases call key.value [.text s] (.empty ⟨w.next⟩) { w with next := w.next + 1 } with ⟨e | built, w'⟩
  · rfl
  · rfl

/-- Whatever a text is, the document that names with it is read, and it gives any sketch that has the
    feature `name` and a level left to call it on a new child whose name is the text. -/
theorem evaluate_naming (s : String) : ∃ d, Document.read (naming s) = .ok d ∧
    ∀ (registry : Registry) (sketch : Sketch) (args : List Value) (w : World),
      Assoc.get? registry "name" = some (.builtin .name) → sketch.depth < maxDepth →
        d.evaluate (registry.dispatch (maxDepth - sketch.depth)) args sketch.node w =
          (.ok (sketch.node.add [named ⟨w.next⟩ s]), { w with next := w.next + 2 }) := by
  obtain ⟨key, span, range, hkey, hread⟩ := read_naming s
  refine ⟨_, hread, ?_⟩
  intro registry sketch args w hname hdepth
  obtain ⟨levels, hlevels⟩ : ∃ levels, maxDepth - sketch.depth = levels + 1 :=
    ⟨maxDepth - sketch.depth - 1, by omega⟩
  rw [evaluate_call, hkey, hlevels, dispatch_name hname]

/-- A text that every layer of quotes has to escape, on the deepest level that calls are made from. -/
theorem evaluate_naming_marks : ∃ d, Document.read (naming "\"\\ # [\n") = .ok d ∧
    Assoc.get? Registry.builtins "name" = some (.builtin .name) ∧ 23 < maxDepth ∧
      d.evaluate (Registry.builtins.dispatch (maxDepth - 23)) [] (.empty ⟨0⟩) ⟨1, []⟩ =
        (.ok ((Node.empty ⟨0⟩).add [named ⟨1⟩ "\"\\ # [\n"]), ⟨3, []⟩) := by
  have hname : Assoc.get? Registry.builtins "name" = some (.builtin .name) := rfl
  obtain ⟨d, hread, hevaluate⟩ := evaluate_naming "\"\\ # [\n"
  have hnamed := hevaluate Registry.builtins ⟨.empty ⟨0⟩, 23⟩ [] ⟨1, []⟩ hname (by decide)
  exact ⟨d, hread, hname, by decide, hnamed⟩

/-- The name is given by a call: where there is no level left for it, or no feature to call, a
    document that names is read and cannot be evaluated. -/
theorem naming_needs_a_call : ∃ d, Document.read (naming "a") = .ok d ∧
    (∀ args node w, (d.evaluate (Registry.builtins.dispatch (maxDepth - 24)) args node w).1 =
      .error (.recursionLimit "name")) ∧
    ∀ args node w, (d.evaluate (Registry.dispatch [] maxDepth) args node w).1 = .error (.unknownFeature "name") := by
  have hname : Assoc.get? Registry.builtins "name" = some (.builtin .name) := rfl
  obtain ⟨key, span, range, hkey, hread⟩ := read_naming "a"
  refine ⟨_, hread, ?_, ?_⟩
  · intro args node w
    have hlimit : maxDepth - 24 = 0 := rfl
    rw [evaluate_call, hkey, hlimit, Registry.dispatch_zero hname]
    rfl
  · intro args node w
    rw [evaluate_call, hkey, Registry.dispatch_of_none rfl]
    rfl

end Sketchwork
