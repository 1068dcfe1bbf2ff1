/-
  Sketchwork.Config.Reader — configurations from TOML.

  There are two tables. Each is opened once: by a header, as an inline table, as an array of
  its fields in order (what follows them in the array is not looked at), or by dotted keys,
  which may come one after the other. Each field is set at most once, to a value of its type;
  what is not set keeps its default.
-/
import Sketchwork.Assoc
import Sketchwork.Config.Basic
import Sketchwork.Config.Toml

namespace Sketchwork.Config

/-! ## Fields -/

/-- Whether an integer fits 64 bits, signed or not. -/
def fits (n : Int) : Bool :=
  -Nat.pow 2 63 ≤ n && n < Nat.pow 2 64

def number? : Toml.Value → Option Float
  | .number (.decimal x) => some x
  | .number (.integer n) => if fits n then some (Float.ofInt n) else none
  | _ => none

def natural? : Toml.Value → Option Nat
  | .number (.integer n) => if 0 ≤ n && fits n then some n.toNat else none
  | _ => none

def text? : Toml.Value → Option String
  | .text s => some s
  | _ => none

def bool? : Toml.Value → Option Bool
  | .bool b => some b
  | _ => none

/-- Sets a field of a table. -/
def setField (table field : String) (value : Toml.Value) (config : Config) : Option Config := do
  match table, field with
  | "svg", "padding" => return { config with padding := ← number? value }
  | "svg", "background" => return { config with background := some (← text? value) }
  | "svg", "precision" => return { config with precision := ← natural? value }
  | "svg", "stroke" => return { config with stroke := ← text? value }
  | "svg", "stroke_width" => return { config with strokeWidth := ← number? value }
  | "svg", "fill" => return { config with fill := ← text? value }
  | "json", "pretty" => return { config with pretty := ← bool? value }
  | _, _ => none

/-- The fields of a table in order. -/
def fieldNames : String → List String
  | "svg" => ["padding", "background", "precision", "stroke", "stroke_width", "fill"]
  | "json" => ["pretty"]
  | _ => []

/-! ## Tables -/

/-- How a table was opened. -/
inductive Opening where
  | whole
  | dotted
  deriving DecidableEq, Repr

/-- A configuration under way. -/
structure Progress where
  config : Config
  opened : Assoc Opening
  /-- The fields that are set, with their tables. -/
  fields : List (String × String)
  /-- The table that entries go to; none before the first header. -/
  table : Option String

namespace Progress

def start : Progress :=
  ⟨Config.default, [], [], none⟩

def set (table field : String) (value : Toml.Value) (d : Progress) : Option Progress := do
  if (table, field) ∈ d.fields then none
  else return { d with config := ← setField table field value d.config, fields := (table, field) :: d.fields }

/-- Opens a table as a whole, which it has to be the first time for. -/
def openWhole (table : String) (d : Progress) : Option Progress :=
  if (table == "svg" || table == "json") && !d.opened.has table then
    some { d with opened := d.opened.insert table .whole }
  else none

/-- Opens a table for a dotted key, which it may be any time for. -/
def openDotted (table : String) (d : Progress) : Option Progress :=
  if d.opened.get? table == some .whole then none
  else some { d with opened := d.opened.insert table .dotted }

def add (d : Progress) : Toml.Statement → Option Progress
  | .header [table] => do return { ← d.openWhole table with table := some table }
  | .header _ => none
  | .entry key value =>
    match d.table, key, value with
    | some table, [field], v => d.set table field v
    | none, [table], .table entries => do
      let d ← d.openWhole table
      entries.foldlM (fun d (key, v) => match key with
        | [field] => d.set table field v
        | _ => none) d
    | none, [table], .array items => do
      let d ← d.openWhole table
      ((fieldNames table).zip items).foldlM (fun d (field, v) => d.set table field v) d
    | none, [table, field], v => do (← d.openDotted table).set table field v
    | _, _, _ => none

end Progress

/-- The configuration that a text describes; none when it is malformed or sets what there is
    not. -/
def read? (text : String) : Option Config := do
  let d ← (← Toml.read? text).foldlM Progress.add .start
  return d.config

end Sketchwork.Config
