/-
  Sketchwork.Proofs.Document.Shape — which trees are documents, and what a document keeps of its tree.

  A tree is a document when its sections, names, chains and expressions have the shapes below
  (`IsDocument`). What the document then holds is said by relations between the parts of the
  tree and the parts of the document (`Document.Holds`): lists go together item by item, so
  every parameter, reference, step, list item and map entry is there once, in its place. Only
  of a map that defines a parameter nothing but its `default` is kept.
-/
import Mathlib.Data.List.Forall2
import Sketchwork.Document.Reader

namespace Sketchwork

/-! ## Names -/

/-- An identifier as it is declared: bare, or behind a sigil. -/
def Declares (written word : List Char) : Prop :=
  Document.isIdentifier word = true ∧ (written = word ∨ written = '$' :: word)

/-- A text that can be declared. -/
def IsName (written : List Char) : Prop :=
  ∃ word, Declares written word

/-! ## Which trees are documents -/

def IsBlank (s : String) : Prop :=
  ∀ c ∈ s.toList, Text.isBlank c = true

/-- Every text in the tree that is not blank is an expression. -/
inductive IsArgument : Item → Prop
  | null (span : Span) : IsArgument (.null span)
  | bool (b : Bool) (span : Span) : IsArgument (.bool b span)
  | number (x : Float) (span : Span) : IsArgument (.number x span)
  | blank {s : String} (quoted : Bool) (span : Span) (h : IsBlank s) : IsArgument (.text s quoted span)
  | expression {s : String} {quoted : Bool} {span : Span} {e : Expr}
      (h : Expr.read (Item.text s quoted span).contentStart s.toList = .ok e) : IsArgument (.text s quoted span)
  | list {items : List Item} (span : Span) (h : ∀ item ∈ items, IsArgument item) : IsArgument (.seq items span)
  | map {entries : List Item.Entry} (span : Span) (h : ∀ entry ∈ entries, IsArgument entry.2) :
      IsArgument (.map entries span)

mutual

inductive IsChain : Item → Prop
  | null (span : Span) : IsChain (.null span)
  | steps {items : List Item} (span : Span) (h : ∀ item ∈ items, IsStep item) : IsChain (.seq items span)

inductive IsStep : Item → Prop
  | nested {key : Spanned String} {value : Item} (span : Span) (hkey : key.value = "sketch") (h : IsChain value) :
      IsStep (.map [(key, value)] span)
  | call {key : Spanned String} {value : Item} (span : Span) (hkey : key.value ≠ "sketch") (h : IsArgument value) :
      IsStep (.map [(key, value)] span)

end

inductive IsParameter : Item → Prop
  | name {s : String} (quoted : Bool) (span : Span) (h : IsName s.toList) : IsParameter (.text s quoted span)
  | entry {entry : Item.Entry} (span : Span) (h : IsName entry.1.value.toList) : IsParameter (.map [entry] span)

inductive IsParameters : Item → Prop
  | null (span : Span) : IsParameters (.null span)
  | list {items : List Item} (span : Span) (h : ∀ item ∈ items, IsParameter item) : IsParameters (.seq items span)
  | map {entries : List Item.Entry} (span : Span) (h : ∀ entry ∈ entries, IsName entry.1.value.toList) :
      IsParameters (.map entries span)

inductive IsReference : Item.Entry → Prop
  | plain {key : Spanned String} {value : Item} (hkey : IsName key.value.toList) (h : IsArgument value) :
      IsReference (key, value)
  | sketch {key : Spanned String} {value : Item} {bare : List Char} (hkey : key.value.toList = bare ++ ":sketch".toList)
      (hbare : IsName bare) (h : IsChain value) : IsReference (key, value)

inductive IsReferences : Item → Prop
  | null (span : Span) : IsReferences (.null span)
  | list {items : List Item} (span : Span) (h : ∀ item ∈ items, ∃ entry s, item = .map [entry] s ∧ IsReference entry) :
      IsReferences (.seq items span)
  | map {entries : List Item.Entry} (span : Span) (h : ∀ entry ∈ entries, IsReference entry) :
      IsReferences (.map entries span)

/-- An entry that a document may have. -/
inductive IsSection : Item.Entry → Prop
  | parameters {key : Spanned String} {value : Item} (hkey : key.value = "parameters") (h : IsParameters value) :
      IsSection (key, value)
  | references {key : Spanned String} {value : Item} (hkey : key.value = "reference") (h : IsReferences value) :
      IsSection (key, value)
  | sketch {key : Spanned String} {value : Item} (hkey : key.value = "sketch") (h : IsChain value) :
      IsSection (key, value)

def IsDocument (root : Item) : Prop :=
  ∃ entries span, root = .map entries span ∧ (∀ entry ∈ entries, IsSection entry) ∧
    ∃ entry ∈ entries, entry.1.value = "sketch"

/-! ## What a document holds -/

/-- A value that is taken as written. -/
inductive Literal.Holds : Item → Literal → Prop
  | null (span : Span) : Holds (.null span) .null
  | bool (b : Bool) (span : Span) : Holds (.bool b span) (.bool b)
  | number (x : Float) (span : Span) : Holds (.number x span) (.number x)
  | text (s : String) (quoted : Bool) (span : Span) : Holds (.text s quoted span) (.text s)
  | list {items : List Item} {parts : List Literal} (span : Span) (h : List.Forall₂ Holds items parts) :
      Holds (.seq items span) (.list parts)
  | map {entries : List Item.Entry} {parts : List (String × Literal)} (span : Span)
      (keys : entries.map (·.1.value) = parts.map (·.1))
      (h : List.Forall₂ Holds (entries.map (·.2)) (parts.map (·.2))) : Holds (.map entries span) (.map parts)

/-- A value whose texts are taken as expressions, those that are blank as written. -/
inductive Arg.Holds : Item → Arg → Prop
  | null (span : Span) : Holds (.null span) (.literal .null)
  | bool (b : Bool) (span : Span) : Holds (.bool b span) (.literal (.bool b))
  | number (x : Float) (span : Span) : Holds (.number x span) (.literal (.number x))
  | blank {s : String} (quoted : Bool) (span : Span) (h : IsBlank s) : Holds (.text s quoted span) (.literal (.text s))
  | expression {s : String} {quoted : Bool} {span : Span} {e : Expr}
      (h : Expr.read (Item.text s quoted span).contentStart s.toList = .ok e) : Holds (.text s quoted span) (.expr e)
  | list {items : List Item} {parts : List Arg} (span : Span) (h : List.Forall₂ Holds items parts) :
      Holds (.seq items span) (.list parts)
  | map {entries : List Item.Entry} {parts : List (String × Arg)} (span : Span)
      (keys : entries.map (·.1.value) = parts.map (·.1))
      (h : List.Forall₂ Holds (entries.map (·.2)) (parts.map (·.2))) : Holds (.map entries span) (.map parts)

/-- The arguments of a call: the items of a list, none for null, and any other value is the only one. -/
inductive Step.HoldsArgs : Item → List Arg → Prop
  | null (span : Span) : HoldsArgs (.null span) []
  | list {items : List Item} {args : List Arg} (span : Span) (h : List.Forall₂ Arg.Holds items args) :
      HoldsArgs (.seq items span) args
  | one {item : Item} {arg : Arg} (hnull : ∀ span, item ≠ .null span) (hlist : ∀ items span, item ≠ .seq items span)
      (h : Arg.Holds item arg) : HoldsArgs item [arg]

mutual

/-- A step and the map of one entry that it is. -/
inductive Step.Holds : Item → Step → Prop
  | nested {key : Spanned String} {value : Item} {steps : List Step} (span : Span) (hkey : key.value = "sketch")
      (h : Step.AllHold value steps) : Step.Holds (.map [(key, value)] span) (.nested steps value.span)
  | call {key : Spanned String} {value : Item} {args : List Arg} (span : Span) (hkey : key.value ≠ "sketch")
      (h : Step.HoldsArgs value args) : Step.Holds (.map [(key, value)] span) (.call key args)

inductive Step.AllHold : Item → List Step → Prop
  | null (span : Span) : Step.AllHold (.null span) []
  | steps {items : List Item} {steps : List Step} (span : Span) (h : List.Forall₂ Step.Holds items steps) :
      Step.AllHold (.seq items span) steps

end

/-- The default of a parameter. -/
inductive Parameter.HoldsDefault : Item → Literal → Prop
  | given {item : Item} {literal : Literal} (hmap : ∀ fields span, item ≠ .map fields span)
      (h : Literal.Holds item literal) : HoldsDefault item literal
  | defined {fields : List Item.Entry} {entry : Item.Entry} {literal : Literal} (span : Span) (hmem : entry ∈ fields)
      (hkey : entry.1.value = "default") (h : Literal.Holds entry.2 literal) : HoldsDefault (.map fields span) literal
  | missing {fields : List Item.Entry} (span : Span) (h : ∀ entry ∈ fields, entry.1.value ≠ "default") :
      HoldsDefault (.map fields span) .null

def Parameter.HoldsEntry (entry : Item.Entry) (p : Parameter) : Prop :=
  Declares entry.1.value.toList p.name.value.toList ∧ Parameter.HoldsDefault entry.2 p.default

inductive Parameter.Holds : Item → Parameter → Prop
  | name {s : String} {p : Parameter} (quoted : Bool) (span : Span) (hname : Declares s.toList p.name.value.toList)
      (hdefault : p.default = .null) : Holds (.text s quoted span) p
  | entry {entry : Item.Entry} {p : Parameter} (span : Span) (h : Parameter.HoldsEntry entry p) :
      Holds (.map [entry] span) p

inductive Parameter.AllHold : Item → List Parameter → Prop
  | null (span : Span) : AllHold (.null span) []
  | list {items : List Item} {ps : List Parameter} (span : Span) (h : List.Forall₂ Parameter.Holds items ps) :
      AllHold (.seq items span) ps
  | map {entries : List Item.Entry} {ps : List Parameter} (span : Span)
      (h : List.Forall₂ Parameter.HoldsEntry entries ps) : AllHold (.map entries span) ps

inductive Reference.Holds : Item.Entry → Reference → Prop
  | plain {key : Spanned String} {value : Item} {r : Reference} {arg : Arg}
      (hname : Declares key.value.toList r.name.value.toList) (hbinding : r.binding = .plain arg)
      (h : Arg.Holds value arg) : Holds (key, value) r
  | sketch {key : Spanned String} {value : Item} {r : Reference} {bare : List Char} {chain : Chain}
      (hkey : key.value.toList = bare ++ ":sketch".toList) (hname : Declares bare r.name.value.toList)
      (hbinding : r.binding = .sketch chain) (h : Step.AllHold value chain.steps) : Holds (key, value) r

inductive Reference.AllHold : Item → List Reference → Prop
  | null (span : Span) : AllHold (.null span) []
  | list {items : List Item} {rs : List Reference} (span : Span)
      (h : List.Forall₂ (fun item r => ∃ entry s, item = .map [entry] s ∧ Reference.Holds entry r) items rs) :
      AllHold (.seq items span) rs
  | map {entries : List Item.Entry} {rs : List Reference} (span : Span) (h : List.Forall₂ Reference.Holds entries rs) :
      AllHold (.map entries span) rs

/-- What holds of the value of every entry with a name. -/
def InSection (name : String) (entries : List Item.Entry) (held : Item → Prop) : Prop :=
  ∀ entry ∈ entries, entry.1.value = name → held entry.2

def NoSection (name : String) (entries : List Item.Entry) : Prop :=
  ∀ entry ∈ entries, entry.1.value ≠ name

/-- A document and the entries of the map that it was read from. -/
structure Document.Holds (entries : List Item.Entry) (d : Document) : Prop where
  parameters : InSection "parameters" entries (Parameter.AllHold · d.parameters)
  noParameters : NoSection "parameters" entries → d.parameters = []
  references : InSection "reference" entries (Reference.AllHold · d.references)
  noReferences : NoSection "reference" entries → d.references = []
  sketch : InSection "sketch" entries (Step.AllHold · d.sketch.steps)

end Sketchwork
