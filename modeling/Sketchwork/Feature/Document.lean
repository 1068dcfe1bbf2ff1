/-
  Sketchwork.Feature.Document — documents as features.

  Parameters are bound first, then references in order, then the chain runs. A chain starts
  from an empty node and what it builds becomes a child of the node it is run for.
-/
import Sketchwork.Evaluation.Expr
import Sketchwork.Feature.Basic

namespace Sketchwork

namespace Step

mutual

/-- Runs steps on the node built so far. -/
def runAll (call : Dispatch) (scope : Scope) : List Step → Node → Eval Node
  | [], node => return node
  | step :: steps, node => do runAll call scope steps (← run call scope step node)

def run (call : Dispatch) (scope : Scope) : Step → Node → Eval Node
  | .call name args, node => do
    let args ← Eval.ofExcept (Arg.evalAll scope args)
    call name.value args node
  | .nested steps _, node => do
    let built ← runAll call scope steps (.empty (← Eval.fresh))
    return node.add [built]

end

end Step

/-- What a chain builds, as a child of a node. -/
def Chain.run (chain : Chain) (call : Dispatch) (scope : Scope) (node : Node) : Eval Node :=
  Step.run call scope (.nested chain.steps chain.span) node

/-- The value of a reference; a sketch is built on an empty node. -/
def Binding.value (call : Dispatch) (scope : Scope) : Binding → Eval Value
  | .plain arg => Eval.ofExcept (arg.eval scope)
  | .sketch chain => do return .sketch (← chain.run call scope (.empty (← Eval.fresh)))

namespace Document

/-- Parameters with their arguments; the default stands in for one that is missing or null. -/
def bindParameters : List Parameter → List Value → Scope → Scope
  | [], _, scope => scope
  | p :: ps, args, scope =>
    let value := match args.head? with
      | some value => if value.isNull then p.default.value else value
      | none => p.default.value
    bindParameters ps args.tail (scope.bind p.name.value value)

def bindReferences (call : Dispatch) : List Reference → Scope → Eval Scope
  | [], scope => return scope
  | r :: rs, scope => do
    let value ← r.binding.value call scope
    bindReferences call rs (scope.bind r.name.value value)

/-- Applies a document to a node: what its chain builds becomes the last child. -/
def evaluate (document : Document) (call : Dispatch) (args : List Value) (node : Node) : Eval Node := do
  let scope := bindParameters document.parameters args .empty
  let scope ← bindReferences call document.references scope
  document.sketch.run call scope node

end Document

end Sketchwork
