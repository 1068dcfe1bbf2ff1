/-
  Sketchwork.Document.Reader — the document that an item tree is.

  The tree must be a map of the sections `parameters`, `reference` and `sketch`, the last
  of which must be there. Readers go on after a fault, so one pass reports them all; a part
  that has one is left out of the document, which is then rejected.
-/
import Sketchwork.Document.Basic
import Sketchwork.Expr.Parser
import Sketchwork.Outline.Block

namespace Sketchwork

/-- A value as written. -/
def Item.literal : Item → Literal
  | .null _ => .null
  | .bool b _ => .bool b
  | .number x _ => .number x
  | .text s _ _ => .text s
  | .seq items _ => .list (literals items)
  | .map entries _ => .map (literalEntries entries)
where
  literals : List Item → List Literal
    | [] => []
    | item :: items => item.literal :: literals items
  literalEntries : List Item.Entry → List (String × Literal)
    | [] => []
    | (key, value) :: entries => (key.value, value.literal) :: literalEntries entries

/-- The entry of a map that has one. -/
def Item.singleEntry? : Item → Option Item.Entry
  | .map [entry] _ => some entry
  | _ => none

namespace Document

/-- A part of a document, with the faults found in it. -/
structure Part (α : Type) where
  value : α
  faults : List Diagnostic
  deriving Repr

/-! ## Arguments and chains -/

/-- A text: an expression, or itself when it is blank. -/
def argOfText (s : String) (item : Item) : Part Arg :=
  if (Text.trim s.toList).isEmpty then ⟨.literal (.text s), []⟩
  else match Expr.read item.contentStart s.toList with
    | .ok e => ⟨.expr e, []⟩
    | .error faults => ⟨.literal .null, faults⟩

mutual

def arg : Item → Part Arg
  | .seq items _ =>
    let parts := args items
    ⟨.list parts.value, parts.faults⟩
  | .map entries _ =>
    let parts := argEntries entries
    ⟨.map parts.value, parts.faults⟩
  | .text s quoted span => argOfText s (.text s quoted span)
  | .null span => ⟨.literal (Item.null span).literal, []⟩
  | .bool b span => ⟨.literal (Item.bool b span).literal, []⟩
  | .number x span => ⟨.literal (Item.number x span).literal, []⟩

def args : List Item → Part (List Arg)
  | [] => ⟨[], []⟩
  | item :: items =>
    let first := arg item
    let more := args items
    ⟨first.value :: more.value, first.faults ++ more.faults⟩

def argEntries : List Item.Entry → Part (List (String × Arg))
  | [] => ⟨[], []⟩
  | (key, value) :: entries =>
    let first := arg value
    let more := argEntries entries
    ⟨(key.value, first.value) :: more.value, first.faults ++ more.faults⟩

end

/-- The arguments of a step: the items of a list, nothing for null, else one. -/
def stepArgs : Item → Part (List Arg)
  | .null _ => ⟨[], []⟩
  | .seq items _ => args items
  | item =>
    let one := arg item
    ⟨[one.value], one.faults⟩

/-- The name of the step that opens a nested chain. -/
def nestedStep : String :=
  "sketch"

mutual

/-- The steps of a chain. -/
def steps : Item → Part (List Step)
  | .null _ => ⟨[], []⟩
  | .seq items _ => stepItems items
  | item => ⟨[], [⟨.chainShape, item.span⟩]⟩

def stepItems : List Item → Part (List Step)
  | [] => ⟨[], []⟩
  | item :: items =>
    let first := step? item
    let more := stepItems items
    ⟨first.value.toList ++ more.value, first.faults ++ more.faults⟩

def step? : Item → Part (Option Step)
  | .map [(key, value)] _ =>
    if key.value == nestedStep then
      let inner := steps value
      ⟨some (.nested inner.value value.span), inner.faults⟩
    else
      let inner := stepArgs value
      ⟨some (.call key inner.value), inner.faults⟩
  | item => ⟨none, [⟨.stepShape, item.span⟩]⟩

end

def readChain (item : Item) : Part Chain :=
  let inner := steps item
  ⟨⟨inner.value, item.span⟩, inner.faults⟩

/-! ## Names -/

def isIdentifier (word : List Char) : Bool :=
  match word with
  | c :: cs => Lexer.isNameStart c && cs.all Lexer.isNamePart
  | [] => false

/-- A declared name without its sigil. -/
def name? (kind : Declared) (raw : Spanned String) : Part (Option (Spanned String)) :=
  let bare : Spanned String := match raw.value.toList with
    | '$' :: word => ⟨String.ofList word, .between (raw.span.start + 1) raw.span.stop⟩
    | _ => raw
  if isIdentifier bare.value.toList then ⟨some bare, []⟩
  else ⟨none, [⟨.invalidName kind raw.value, raw.span⟩]⟩

/-! ## Parameters -/

/-- The default of a parameter; of a map only the entry `default` counts. -/
def defaultOf : Item → Literal
  | .map fields _ => ((Item.Entry.find? "default" fields).map Item.literal).getD .null
  | item => item.literal

def parameterEntry (entry : Item.Entry) : Part (Option Parameter) :=
  let name := name? .parameter entry.1
  ⟨name.value.map fun n => ⟨n, defaultOf entry.2⟩, name.faults⟩

def parameterItem (item : Item) : Part (Option Parameter) :=
  match item with
  | .text s _ span =>
    let name := name? .parameter ⟨s, span⟩
    ⟨name.value.map fun n => ⟨n, .null⟩, name.faults⟩
  | _ =>
    match item.singleEntry? with
    | some entry => parameterEntry entry
    | none => ⟨none, [⟨.parameterShape, item.span⟩]⟩

/-- The parts that are there, in order, with all faults. -/
def collect {α β : Type} (f : α → Part (Option β)) (xs : List α) : Part (List β) :=
  let parts := xs.map f
  ⟨parts.filterMap (·.value), parts.flatMap (·.faults)⟩

def readParameters : Item → Part (List Parameter)
  | .null _ => ⟨[], []⟩
  | .seq items _ => collect parameterItem items
  | .map entries _ => collect parameterEntry entries
  | item => ⟨[], [⟨.parametersShape, item.span⟩]⟩

/-! ## References -/

/-- The ending of a reference that is bound to a sketch. -/
def sketchSuffix : List Char :=
  [':', 's', 'k', 'e', 't', 'c', 'h']

def referenceEntry (entry : Item.Entry) : Part (Option Reference) :=
  let (key, value) := entry
  let word := key.value.toList
  if sketchSuffix.isSuffixOf word then
    let bare : Spanned String :=
      ⟨String.ofList (word.take (word.length - sketchSuffix.length)),
        .between key.span.start (key.span.stop - sketchSuffix.length)⟩
    let name := name? .reference bare
    match name.value with
    | none => ⟨none, name.faults⟩
    | some n =>
      let chain := readChain value
      ⟨some ⟨n, .sketch chain.value⟩, chain.faults⟩
  else
    let name := name? .reference key
    match name.value with
    | none => ⟨none, name.faults⟩
    | some n =>
      let arg := arg value
      ⟨some ⟨n, .plain arg.value⟩, arg.faults⟩

def referenceItem (item : Item) : Part (Option Reference) :=
  match item.singleEntry? with
  | some entry => referenceEntry entry
  | none => ⟨none, [⟨.referenceShape, item.span⟩]⟩

def readReferences : Item → Part (List Reference)
  | .null _ => ⟨[], []⟩
  | .seq items _ => collect referenceItem items
  | .map entries _ => collect referenceEntry entries
  | item => ⟨[], [⟨.referencesShape, item.span⟩]⟩

/-- The references whose name an earlier one, or a parameter, has. -/
def shadowed (earlier : List (Spanned String)) : List Reference → List Diagnostic
  | [] => []
  | r :: rs =>
    let fault := (earlier.find? fun n => n.value == r.name.value).map fun first =>
      (⟨.shadowedName r.name.value first.span, r.name.span⟩ : Diagnostic)
    fault.toList ++ shadowed (earlier ++ [r.name]) rs

/-! ## Sections -/

/-- The sections read so far. -/
structure Sections where
  parameters : List Parameter := []
  references : List Reference := []
  sketch : Option Chain := none
  faults : List Diagnostic := []

/-- Reads one section of a document. -/
def Sections.add (s : Sections) (entry : Item.Entry) : Sections :=
  let (key, value) := entry
  if key.value == "parameters" then
    let part := readParameters value
    { s with parameters := part.value, faults := s.faults ++ part.faults }
  else if key.value == "reference" then
    let part := readReferences value
    { s with references := part.value, faults := s.faults ++ part.faults }
  else if key.value == "sketch" then
    let part := readChain value
    { s with sketch := some part.value, faults := s.faults ++ part.faults }
  else { s with faults := s.faults ++ [⟨.unknownSection key.value, key.span⟩] }

/-- The document that a whole tree is; warnings alone do not reject it. -/
def ofItem (root : Item) : Except (List Diagnostic) Document :=
  match root with
  | .map entries span =>
    let s := entries.foldl Sections.add {}
    let missing := if s.sketch.isNone then [⟨.noSketch, .point span.start⟩] else []
    let faults := s.faults ++ missing ++ shadowed (s.parameters.map (·.name)) s.references
    if faults.any Diagnostic.isError then .error faults
    else .ok ⟨s.parameters, s.references, s.sketch.getD default⟩
  | _ => .error [⟨.notSections, root.span⟩]

/-- Reads the text of a document. -/
def read (text : String) : Except (List Diagnostic) Document := do
  ofItem (← Item.read text.toList)

end Document

end Sketchwork
