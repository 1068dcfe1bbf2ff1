/-
  Sketchwork.Feature.Dispatch — calling features by name.

  A call runs its feature one level deeper than it is made. At the deepest level no feature
  can be called any more, so the recursion is on the levels that are left. The result of a
  call carries the name that was called as a stamp, unless the feature named itself.
-/
import Sketchwork.Feature.Document

namespace Sketchwork

/-! ## Moves -/

namespace Node

mutual

/-- The same scene with fresh ids. -/
def renewed : Node → Eval Node
  | ⟨_, name, provenance, hidden, z, style, entities, attributes, children⟩ => do
    let children ← renewedAll children
    return ⟨← Eval.fresh, name, provenance, hidden, z, style, entities, attributes, children⟩

def renewedAll : List Node → Eval (List Node)
  | [] => return []
  | node :: nodes => do
    let node ← renewed node
    return node :: (← renewedAll nodes)

end

end Node

namespace Operand

mutual

/-- The operand in a body that was called with `args`. -/
def eval (args : List Value) : Operand → Eval Value
  | .value v => return v
  | .argument i => return args[i]?.getD .null
  | .copy scene => do return .sketch (← scene.renewed)
  | .list items => do return .list (← evalAll args items)
  | .map entries => do return .map (← evalEntries args entries)

def evalAll (args : List Value) : List Operand → Eval (List Value)
  | [] => return []
  | item :: items => do
    let value ← eval args item
    return value :: (← evalAll args items)

def evalEntries (args : List Value) : List (String × Operand) → Eval (List (String × Value))
  | [] => return []
  | (key, item) :: entries => do
    let value ← eval args item
    return (key, value) :: (← evalEntries args entries)

end

end Operand

def Move.run (call : Dispatch) (depth : Nat) (args : List Value) (node : Node) : Move → Eval Node
  | .call name operands => do call name (← Operand.evalAll args operands) node
  | .setFeature name => return node.setFeature name
  | .blank => return .empty (← Eval.fresh)
  | .fail => throw .emptyShape
  | .probe => do
    Eval.observe ⟨args, depth, node.feature?⟩
    return node

/-! ## Calls -/

/-- Runs the body of a feature at a depth. -/
def Feature.run (call : Dispatch) (depth : Nat) (args : List Value) (node : Node) : Feature → Eval Node
  | .builtin b => do Eval.ofExcept (b.run (← Eval.fresh) node args)
  | .document d => d.evaluate call args node
  | .moves ms => ms.foldlM (Move.run call depth args) node

/-- Marks a node as the result of a call, unless it names its feature itself. -/
def Node.stamp (name : String) (node : Node) : Node :=
  if node.provenance.isExplicit then node else { node with provenance := .stamped name }

/-- Calls a feature with some levels left below. -/
def Registry.dispatch (registry : Registry) : Nat → Dispatch
  | levels, name, args, node =>
    match Assoc.get? registry name with
    | none => throw (.unknownFeature name)
    | some feature =>
      match levels with
      | 0 => throw (.recursionLimit name)
      | levels + 1 => do
        let input := { node with provenance := .stamped name }
        let output ← feature.run (registry.dispatch levels) (maxDepth - levels) args input
        return output.stamp name

/-! ## Sketches -/

/-- A node at a depth of calls. -/
structure Sketch where
  node : Node
  depth : Nat
  deriving Repr

/-- Calls a feature on the node of a sketch. The sketch itself stays as it is; the result is at
    the same depth. -/
def Sketch.call (sketch : Sketch) (registry : Registry) (name : String) (args : List Value) : Eval Sketch := do
  let node ← registry.dispatch (maxDepth - sketch.depth) name args sketch.node
  return { sketch with node }

end Sketchwork
