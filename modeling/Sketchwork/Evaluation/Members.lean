/-
  Sketchwork.Evaluation.Members — what `target[index]` and `target.name` are.
-/
import Sketchwork.Error

namespace Sketchwork

/-! ## Entities -/

def Value.ofPoints (ps : List Position) : Value :=
  .list (ps.map .ofPoint)

/-- The members that every entity has. -/
def Entity.commonMember? (entity : Entity) (name : String) : Option Value :=
  match name with
  | "vertices" => some (.ofPoints entity.anchors)
  | "kind" => some (.text entity.kind)
  | _ => none

/-- The members of one kind of entity. -/
def Entity.ownMember? (entity : Entity) (name : String) : Option Value :=
  match entity, name with
  | .point p, "x" => some (.number p.x)
  | .point p, "y" => some (.number p.y)
  | .segment p _, "start" => some (.ofPoint p)
  | .segment _ q, "end" => some (.ofPoint q)
  | .segment p q, "length" => some (.number (p.distance q))
  | .circle c _, "center" => some (.ofPoint c)
  | .circle _ r, "radius" => some (.number r)
  | .arc a, "center" => some (.ofPoint a.center)
  | .arc a, "radius" => some (.number a.radius)
  | .arc a, "start_angle" => some (.number a.startAngle)
  | .arc a, "end_angle" => some (.number a.endAngle)
  | .polycurve curve, "closed" => some (.bool curve.closed)
  | .polycurve curve, "edges" => some (.list (curve.edges.map fun e => .entity (.segment e.start e.stop)))
  | .polyface loops, "outer" => some (loops.head?.elim .null fun curve => .entity (.polycurve curve))
  | .polyface loops, "holes" => some (.list (loops.tail.map fun curve => .entity (.polycurve curve)))
  | .text c, "position" => some (.ofPoint c.position)
  | .text c, "content" => some (.text c.content)
  | .text c, "size" => some (.number c.size)
  | _, _ => none

def Entity.member? (entity : Entity) (name : String) : Option Value :=
  entity.ownMember? name <|> entity.commonMember? name

namespace Value

def fault {α : Type} (fault : ExprFault) : Except Error α :=
  .error (.expression fault)

/-! ## Positions -/

/-- The position in a list of some length that a number names. -/
def position? (x : Float) (length : Nat) : Option Nat :=
  if x.isFinite && x.floor == x && 0.0 ≤ x && x.toUInt64.toNat < length then some x.toUInt64.toNat else none

def index (target index : Value) : Except Error Value :=
  match target, index with
  | .list items, .number x =>
    match (position? x items.length).bind (items[·]?) with
    | some item => .ok item
    | none => fault (.outOfRange x items.length)
  | .map entries, .text key =>
    match Assoc.get? entries key with
    | some value => .ok value
    | none => fault (.noKey key)
  | target, index => fault (.notIndexable target.kind index.kind)

/-! ## Names -/

def entityMember (entity : Entity) (name : String) : Except Error Value :=
  match entity.member? name with
  | some value => .ok value
  | none => fault (.noMember (Value.entity entity).kind name)

/-- A name that is no member of the sketch itself is one of its first entity. -/
def sketchMember (node : Node) (name : String) : Except Error Value :=
  match name with
  | "name" => .ok (.text node.name)
  | "entities" => .ok (.list (node.entities.map .entity))
  | "children" => .ok (.list (node.children.map .sketch))
  | _ =>
    match node.firstEntity? with
    | none => .error .emptyShape
    | some e => if name == "shape" then .ok (.entity e) else entityMember e name

def member (target : Value) (name : String) : Except Error Value :=
  match target, name with
  | .sketch node, _ => sketchMember node name
  | .entity e, _ => entityMember e name
  | .map entries, _ =>
    match Assoc.get? entries name with
    | some value => .ok value
    | none => fault (.noKey name)
  | .list items, "length" => .ok (.number (Float.ofNat items.length))
  | .text s, "length" => .ok (.number (Float.ofNat s.length))
  | other, _ => fault (.noMember other.kind name)

end Value

end Sketchwork
