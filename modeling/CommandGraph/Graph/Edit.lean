import CommandGraph.Graph.Basic

/-!
# Editing a graph

Every edit gives a new graph or refuses with a cause. A node can be placed only if the catalog has
its type, and two pins can be connected only if they are there, on the right sides of different
nodes, and of one kind. An input pin takes one connection, so connecting to it replaces the
connection it had.
-/

namespace CommandGraph

/-- A side of a node. -/
inductive Side where
  /-- The side with the input pins. -/
  | input
  /-- The side with the output pins. -/
  | output
deriving DecidableEq

namespace Side

/-- The name of a side. -/
def label : Side → String
  | input => "input"
  | output => "output"

end Side

/-- Why an edit was refused. -/
inductive GraphError where
  /-- The catalog has no type with this tag. -/
  | unknownType (tag : String)
  /-- The graph has no such node. -/
  | nodeNotFound (id : NodeId)
  /-- The node has no such pin on this side. -/
  | pinNotFound (id : NodeId) (tag : String) (side : Side) (pin : String)
  /-- The two ends are the same node. -/
  | selfConnection (id : NodeId)
  /-- The two pins are of different kinds. -/
  | kindMismatch (source target : PinKind)
deriving DecidableEq

namespace GraphError

/-- A refusal in words. -/
def message : GraphError → String
  | unknownType tag => s!"Node type '{tag}' is not registered in the catalog"
  | nodeNotFound id => s!"Node {id.shown} does not exist in the graph"
  | pinNotFound id tag side pin =>
    s!"Node {id.shown} ('{tag}') has no {side.label} pin named '{pin}'"
  | selfConnection id => s!"Node {id.shown} cannot be connected to itself"
  | kindMismatch source target =>
    s!"Cannot connect a {source.name} pin to a {target.name} pin"

end GraphError

/-- The kind of a pin on one side of a node, given what was found under the node's identity. -/
def pinKindOf (id : NodeId) (found : Option Node) (side : Side) (pin : String) :
    Except GraphError PinKind :=
  match found with
  | none => .error (.nodeNotFound id)
  | some node =>
    match node.type? with
    | none => .error (.unknownType node.tag)
    | some type =>
      let found := match side with
        | .input => type.input? pin
        | .output => type.output? pin
      match found with
      | none => .error (.pinNotFound id node.tag side pin)
      | some p => .ok p.kind

namespace Graph

/-- Places a node of a type, with the type's default property values. -/
def addNode (g : Graph) (tag : String) (position : Position) : Except GraphError (NodeId × Graph) :=
  match Catalog.standard.find? tag with
  | none => .error (.unknownType tag)
  | some type =>
    let id : NodeId := ⟨g.nextIndex⟩
    let node : Node := { id, tag := type.tag, position, properties := type.defaults }
    .ok (id, { g with nodes := g.nodes ++ [node], nextIndex := g.nextIndex + 1 })

/-- Removes a node and every connection at it, and gives the node. -/
def removeNode? (g : Graph) (id : NodeId) : Option (Node × Graph) :=
  (g.node? id).map fun node =>
    (node, { g with
      nodes := g.nodes.filter (·.id != id)
      connections := g.connections.filter (!·.touches id) })

/-- Changes the node with an identity. -/
def modifyNode (g : Graph) (id : NodeId) (change : Node → Node) : Graph :=
  { g with nodes := g.nodes.map fun node => if node.id = id then change node else node }

/-- Changes the node with an identity, which must be there. -/
def editNode (g : Graph) (id : NodeId) (change : Node → Node) : Except GraphError Graph :=
  match g.node? id with
  | none => .error (.nodeNotFound id)
  | some _ => .ok (g.modifyNode id change)

/-- Sets a property of a node. -/
def setProperty (g : Graph) (id : NodeId) (name : String) (value : Json) :
    Except GraphError Graph :=
  g.editNode id fun node => { node with properties := node.properties.insert name value }

/-- Removes a property of a node. -/
def eraseProperty (g : Graph) (id : NodeId) (name : String) : Except GraphError Graph :=
  g.editNode id fun node => { node with properties := node.properties.erase name }

/-- Moves a node. -/
def moveNode (g : Graph) (id : NodeId) (position : Position) : Except GraphError Graph :=
  g.editNode id fun node => { node with position }

/-- Gives a node another type tag. Its properties and connections stay, whether or not the catalog
has a type with the tag. -/
def retypeNode (g : Graph) (id : NodeId) (tag : String) : Except GraphError Graph :=
  g.editNode id fun node => { node with tag }

/-- The kind of a pin on one side of a node. -/
def pinKind (g : Graph) (id : NodeId) (side : Side) (pin : String) : Except GraphError PinKind :=
  pinKindOf id (g.node? id) side pin

/-- Connects an output pin to an input pin, replacing the connection that the input pin had. -/
def connect (g : Graph) (source : NodeId) (sourcePin : String) (target : NodeId)
    (targetPin : String) : Except GraphError Graph := do
  if source = target then throw (.selfConnection source)
  -- The source is looked at first, so it is the one to blame if both ends are wrong.
  let kind ← g.pinKind source .output sourcePin
  let targetKind ← g.pinKind target .input targetPin
  if kind ≠ targetKind then throw (.kindMismatch kind targetKind)
  let others := g.connections.filter (!·.enters target targetPin)
  return { g with connections := others ++ [{ source, sourcePin, target, targetPin, kind }] }

/-- Removes the connection that feeds an input pin, and gives it. -/
def disconnect? (g : Graph) (id : NodeId) (pin : String) : Option (Connection × Graph) :=
  (g.inbound? id pin).map fun c =>
    (c, { g with connections := g.connections.eraseP (·.enters id pin) })

end Graph

end CommandGraph
