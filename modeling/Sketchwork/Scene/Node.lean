/-
  Sketchwork.Scene.Node — scenes: trees of nodes that own shapes.

  A node owns its entities and its children. Copies keep their ids; a fresh node takes the
  next id of a supply. A walk (`Node.walk`) takes nodes from a queue of pending ones:
  children go to its end in level order and to its front in pre-order.
-/
import Sketchwork.Assoc
import Sketchwork.Json.Writer
import Sketchwork.Scene.Entity
import Sketchwork.Scene.Style

namespace Sketchwork

/-! ## Ids and provenance -/

structure NodeId where
  serial : Nat
  deriving DecidableEq, Repr

/-- Thirty-two hexadecimal digits in groups of 8, 4, 4, 4 and 12. -/
def NodeId.text (id : NodeId) : String :=
  let ds := (List.range 32).map fun i => Json.hexDigit (id.serial / Nat.pow 16 (31 - i) % 16)
  let group (skip n : Nat) := String.ofList ((ds.drop skip).take n)
  "-".intercalate [group 0 8, group 8 4, group 12 4, group 16 4, group 20 12]

/-- Which feature a node came from. A name that a feature wrote itself stays, a stamp gives
    way to the stamp of the enclosing call. -/
inductive Provenance where
  | none
  | stamped (feature : String)
  | explicit (feature : String)
  deriving DecidableEq, Repr

def Provenance.feature? : Provenance → Option String
  | none => Option.none
  | stamped name | explicit name => some name

def Provenance.isExplicit : Provenance → Bool
  | explicit _ => true
  | _ => false

/-! ## Nodes -/

structure Node where
  id : NodeId
  /-- Empty for a node without a name. -/
  name : String
  provenance : Provenance
  /-- A hidden node is not drawn, nor is anything below it. -/
  hidden : Bool
  /-- The place among its siblings: higher ones are drawn later. -/
  z : Float
  style : Style
  entities : List Entity
  attributes : List (String × Json)
  children : List Node
  deriving Repr

namespace Node

/-- A node that holds nothing. -/
def empty (id : NodeId) : Node :=
  ⟨id, "", .none, false, 0.0, .empty, [], [], []⟩

/-- A node that owns entities. -/
def holding (id : NodeId) (entities : List Entity) : Node :=
  { empty id with entities }

instance : Inhabited Node := ⟨empty ⟨0⟩⟩

def feature? (node : Node) : Option String :=
  node.provenance.feature?

/-- Names the feature that made the node; calls around it keep the name. -/
def setFeature (name : String) (node : Node) : Node :=
  { node with provenance := .explicit name }

/-- Puts nodes behind the children. -/
def add (nodes : List Node) (node : Node) : Node :=
  { node with children := node.children ++ nodes }

def pushEntity (entity : Entity) (node : Node) : Node :=
  { node with entities := node.entities ++ [entity] }

def setAttribute (key : String) (value : Json) (node : Node) : Node :=
  { node with attributes := Assoc.insert key value node.attributes }

/-- The children in drawing order; equal ones keep their order. -/
def childrenByZ (node : Node) : List Node :=
  node.children.mergeSort fun a b => Real64.totalLe a.z b.z

mutual

/-- Equality, ids and provenance included; attributes in any order. -/
def same : Node → Node → Bool
  | ⟨id, name, provenance, hidden, z, style, entities, attributes, children⟩, other =>
    decide (id = other.id) && name == other.name && decide (provenance = other.provenance) &&
      hidden == other.hidden && z == other.z && style == other.style && entities == other.entities &&
      Json.same (.object attributes) (.object other.attributes) && sameNodes children other.children

def sameNodes : List Node → List Node → Bool
  | [], [] => true
  | a :: as, b :: bs => same a b && sameNodes as bs
  | _, _ => false

end

/-! ## Walks -/

mutual

/-- The number of nodes of a tree. -/
def size : Node → Nat
  | ⟨_, _, _, _, _, _, _, _, children⟩ => 1 + sizes children

def sizes : List Node → Nat
  | [] => 0
  | node :: nodes => size node + sizes nodes

end

theorem size_eq (node : Node) : node.size = 1 + sizes node.children := by
  cases node; simp [size]

theorem sizes_append (a b : List Node) : sizes (a ++ b) = sizes a + sizes b := by
  induction a with
  | nil => simp [sizes]
  | cons node nodes ih => simp [sizes, ih, Nat.add_assoc]

inductive Order where
  /-- All nodes of a level before those of the next. -/
  | level
  /-- A node before its descendants, one child after the other. -/
  | pre
  deriving DecidableEq, Repr

/-- Where the children of a node go among the pending nodes. -/
def Order.enqueue (order : Order) (children pending : List Node) : List Node :=
  match order with
  | .level => pending ++ children
  | .pre => children ++ pending

/-- The nodes that are pending and all below them, in order. -/
def walk (order : Order) : List Node → List Node
  | [] => []
  | node :: pending => node :: walk order (order.enqueue node.children pending)
termination_by pending => sizes pending
decreasing_by
  cases order <;> simp only [Order.enqueue, sizes, sizes_append, size_eq] <;> omega

/-- A node and all below it. -/
def traverse (node : Node) (order : Order) : List Node :=
  walk order [node]

def count (node : Node) : Nat :=
  (node.traverse .pre).length

/-- The first member that passes a test, and how many were tested. -/
def firstMatch (test : Node → Bool) : List Node → Option Node × Nat
  | [] => (none, 0)
  | node :: nodes =>
    if test node then (some node, 1)
    else
      let (found, tested) := firstMatch test nodes
      (found, tested + 1)

/-- The first node in order that passes a test, and how many were tested. -/
def search (node : Node) (test : Node → Bool) (order : Order) : Option Node × Nat :=
  firstMatch test (node.traverse order)

/-- The entities of a node and of all below it. -/
def subtreeEntities (node : Node) (order : Order) : List Entity :=
  (node.traverse order).flatMap (·.entities)

/-- The first entity of the first node, level by level, that owns any. -/
def firstEntity? (node : Node) : Option Entity :=
  (node.search (fun n => !n.entities.isEmpty) .level).1.bind (·.entities.head?)

/-! ## Changing every node -/

mutual

/-- Changes the entities of a node and of all below it, a node before its children. -/
def mapEntitiesM {m : Type → Type} [Monad m] (f : List Entity → m (List Entity)) : Node → m Node
  | ⟨id, name, provenance, hidden, z, style, entities, attributes, children⟩ => do
    let entities ← f entities
    let children ← mapNodesM f children
    return ⟨id, name, provenance, hidden, z, style, entities, attributes, children⟩

def mapNodesM {m : Type → Type} [Monad m] (f : List Entity → m (List Entity)) :
    List Node → m (List Node)
  | [] => return []
  | node :: nodes => do
    let node ← mapEntitiesM f node
    let nodes ← mapNodesM f nodes
    return node :: nodes

end

mutual

/-- Changes the entities of a node and of all below it. -/
def mapEntities (f : List Entity → List Entity) : Node → Node
  | ⟨id, name, provenance, hidden, z, style, entities, attributes, children⟩ =>
    ⟨id, name, provenance, hidden, z, style, f entities, attributes, mapNodes f children⟩

def mapNodes (f : List Entity → List Entity) : List Node → List Node
  | [] => []
  | node :: nodes => mapEntities f node :: mapNodes f nodes

end

/-- The scene with every entity moved. -/
def transform (t : Similarity Float) (node : Node) : Node :=
  node.mapEntities (List.map (Entity.transform t))

end Node

end Sketchwork
