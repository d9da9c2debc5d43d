import CommandGraph.Graph.Edit
import Std.Data.TreeMap

/-!
# The stores of a graph

While a graph is edited it is kept in an arena of several stores: a table of the nodes by their
numbers, the list of the identities in the order of placing, the list of the connections, and the
number for the next node. The list of the nodes is not stored; it is looked up in the table, in the
order of the identities (`Arena.graph`).

An operation is a program over the arena that may be refused (`Editing`). It changes the stores one
after another, and a refusal does not take back what has been changed before it. So every check has
to come before the first change.
-/

namespace CommandGraph

/-- A graph as it is kept while it is edited. -/
structure Arena where
  /-- The nodes, by their numbers. -/
  table : Std.TreeMap UInt32 Node := {}
  /-- The identities of the nodes, in the order in which they were placed. -/
  order : List NodeId := []
  /-- The connections, in the order in which they were made. -/
  connections : List Connection := []
  /-- The number that identifies the next node to be placed. -/
  nextIndex : UInt32 := 0

/-- A program that edits an arena. If it is refused, the arena is what it has left behind. -/
abbrev Editing := ExceptT GraphError (StateM Arena)

namespace Arena

/-- The node with an identity. -/
def node? (a : Arena) (id : NodeId) : Option Node :=
  a.table[id.index]?

/-- The nodes, in the order in which they were placed. -/
def nodes (a : Arena) : List Node :=
  a.order.filterMap a.node?

/-- The connection that feeds an input pin. -/
def inbound? (a : Arena) (id : NodeId) (pin : String) : Option Connection :=
  a.connections.find? (·.enters id pin)

/-- The kind of a pin on one side of a node. -/
def pinKind (a : Arena) (id : NodeId) (side : Side) (pin : String) : Except GraphError PinKind :=
  pinKindOf id (a.node? id) side pin

/-- The graph that is kept in an arena. -/
def graph (a : Arena) : Graph where
  nodes := a.nodes
  connections := a.connections
  nextIndex := a.nextIndex

/-- Places a node of a type, with the type's default property values. -/
def addNode (tag : String) (position : Position) : Editing NodeId := do
  match Catalog.standard.find? tag with
  | none => throw (.unknownType tag)
  | some type =>
    let id : NodeId := ⟨(← get).nextIndex⟩
    let node : Node := { id, tag := type.tag, position, properties := type.defaults }
    modify fun a => { a with nextIndex := a.nextIndex + 1 }
    modify fun a => { a with table := a.table.insert id.index node }
    modify fun a => { a with order := a.order ++ [id] }
    return id

/-- Removes a node and every connection at it, and gives the node. -/
def removeNode? (id : NodeId) : StateM Arena (Option Node) := do
  match (← get).node? id with
  | none => return none
  | some node =>
    modify fun a => { a with table := a.table.erase id.index }
    modify fun a => { a with order := a.order.filter (· != id) }
    modify fun a => { a with connections := a.connections.filter (!·.touches id) }
    return some node

/-- Changes the node with an identity, which must be there. -/
def editNode (id : NodeId) (change : Node → Node) : Editing Unit := do
  match (← get).node? id with
  | none => throw (.nodeNotFound id)
  | some node => modify fun a => { a with table := a.table.insert id.index (change node) }

/-- Sets a property of a node. -/
def setProperty (id : NodeId) (name : String) (value : Json) : Editing Unit :=
  editNode id fun node => { node with properties := node.properties.insert name value }

/-- Removes a property of a node. -/
def eraseProperty (id : NodeId) (name : String) : Editing Unit :=
  editNode id fun node => { node with properties := node.properties.erase name }

/-- Moves a node. -/
def moveNode (id : NodeId) (position : Position) : Editing Unit :=
  editNode id fun node => { node with position }

/-- Gives a node another type tag. -/
def retypeNode (id : NodeId) (tag : String) : Editing Unit :=
  editNode id fun node => { node with tag }

/-- Connects an output pin to an input pin, replacing the connection that the input pin had. -/
def connect (source : NodeId) (sourcePin : String) (target : NodeId) (targetPin : String) :
    Editing Unit := do
  if source = target then throw (.selfConnection source)
  let kind ← MonadExcept.ofExcept ((← get).pinKind source .output sourcePin)
  let targetKind ← MonadExcept.ofExcept ((← get).pinKind target .input targetPin)
  if kind ≠ targetKind then throw (.kindMismatch kind targetKind)
  -- From here on nothing is refused, so the connection that goes does not go in vain.
  modify fun a => { a with connections := a.connections.filter (!·.enters target targetPin) }
  modify fun a =>
    { a with connections := a.connections ++ [{ source, sourcePin, target, targetPin, kind }] }

/-- Removes the connection that feeds an input pin, and gives it. -/
def disconnect? (id : NodeId) (pin : String) : StateM Arena (Option Connection) := do
  match (← get).inbound? id pin with
  | none => return none
  | some c =>
    modify fun a => { a with connections := a.connections.eraseP (·.enters id pin) }
    return some c

end Arena

end CommandGraph
