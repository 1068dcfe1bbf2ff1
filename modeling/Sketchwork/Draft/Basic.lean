/-
  Sketchwork.Draft.Basic — drafts: named sources that can call each other.

  A draft keeps its sources in order, one for each name. Every source is a feature to all
  of them, under its name in the namespace of the user. Texts are read when they come into
  a draft, so that a malformed one never does.
-/
import Sketchwork.Document.Reader
import Sketchwork.Draft.Failure
import Sketchwork.Export.Render
import Sketchwork.Feature.Dispatch

namespace Sketchwork

/-- What a name of a draft stands for. -/
inductive Source where
  /-- A document and the text it was read from. -/
  | document (text : String) (document : Document)
  /-- A list of moves and the parameters it declares. -/
  | moves (parameters : List (String × Value)) (moves : List Move)
  deriving Repr

namespace Source

def feature : Source → Feature
  | document _ d => .document d
  | moves _ ms => .moves ms

/-- The parameters with their defaults. -/
def parameters : Source → List (String × Value)
  | document _ d => d.parameters.map fun p => (p.name.value, p.default.value)
  | moves ps _ => ps

def text? : Source → Option String
  | document text _ => some text
  | moves _ _ => none

end Source

structure Draft where
  config : Config
  sources : Assoc Source
  deriving Repr

namespace Draft

def empty (config : Config) : Draft :=
  ⟨config, []⟩

def names (draft : Draft) : List String :=
  draft.sources.keys

def has (draft : Draft) (name : String) : Bool :=
  draft.sources.has name

def source (draft : Draft) (name : String) : Except Failure Source :=
  match draft.sources.get? name with
  | some source => .ok source
  | none => .error (.unknownSource name)

/-- The text of a document; none for a list of moves or an unknown name. -/
def text? (draft : Draft) (name : String) : Option String :=
  (draft.sources.get? name).bind Source.text?

/-! ## Edits -/

/-- Puts a source in the place of the one of its name, or behind all others. -/
def put (draft : Draft) (name : String) (source : Source) : Draft :=
  { draft with sources := draft.sources.insert name source }

inductive Edit where
  | document (name text : String)
  | moves (name : String) (parameters : List (String × Value)) (moves : List Move)
  /-- Takes a source from its place and puts it under another name. -/
  | rename (name new : String)
  | remove (name : String)
  deriving Repr

/-- The draft after an edit. -/
def edit (draft : Draft) : Edit → Except Failure Draft
  | .document name text =>
    match Document.read text with
    | .ok d => .ok (draft.put name (.document text d))
    | .error ds => .error (.malformed name text ds)
  | .moves name ps ms => .ok (draft.put name (.moves ps ms))
  | .rename name new => do
    let source ← draft.source name
    return { draft with sources := draft.sources.erase name }.put new source
  | .remove name => do
    let _ ← draft.source name
    return { draft with sources := draft.sources.erase name }

/-- The draft after edits, those that fail left out. -/
def editAll (draft : Draft) (edits : List Edit) : Draft :=
  edits.foldl (fun draft e => (draft.edit e).toOption.getD draft) draft

/-! ## Evaluation -/

/-- The name that sources call a source by. -/
def qualified (name : String) : String :=
  "user." ++ name

/-- The built-in features and all sources. -/
def registry (draft : Draft) : Registry :=
  draft.sources.foldl (fun registry s => registry.register (qualified s.1) s.2.feature) .builtins

/-- Calls a source on an empty sketch. -/
def evaluate (draft : Draft) (name : String) (args : List Value) : ExceptT Failure (StateM World) Sketch := do
  let _ ← ofExcept (draft.source name)
  ExceptT.adapt (.evaluation name) do
    let sketch : Sketch := ⟨.empty (← Eval.fresh), 0⟩
    sketch.call draft.registry (qualified name) args

/-- The rendering of what a source evaluates to. -/
def render (draft : Draft) (name : String) (args : List Value) (format : Export.Format)
    (options : Export.Options) : ExceptT Failure (StateM World) String := do
  let sketch ← draft.evaluate name args
  match Export.render sketch.node format options draft.config with
  | .ok text => return text
  | .error e => throw (.rendering e)

end Draft

end Sketchwork
