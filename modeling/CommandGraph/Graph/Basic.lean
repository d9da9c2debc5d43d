import CommandGraph.Catalog.Standard
import CommandGraph.Graph.Value

/-!
# Graphs

A graph holds placed nodes and the connections between their pins. The nodes are listed in the order
in which they were placed, which is the order in which compilation starts at them. Every node has an
identity, and an identity is never given out twice.

Positions are for the editor alone; compilation does not look at them.
-/

namespace CommandGraph

/-- The identity of a node in its graph. -/
structure NodeId where
  /-- The number that identifies the node. -/
  index : UInt32
deriving DecidableEq

namespace NodeId

/-- An identity as messages show it. -/
def shown (id : NodeId) : String :=
  "#" ++ toString id.index.toNat

end NodeId

/-- A place on the editor's canvas. -/
structure Position where
  /-- The horizontal coordinate. -/
  x : Double := .zero
  /-- The vertical coordinate. -/
  y : Double := .zero
deriving DecidableEq

/-- A placed node. -/
structure Node where
  /-- The identity. -/
  id : NodeId
  /-- The tag of the node's type. -/
  tag : String
  /-- Where the editor shows the node. -/
  position : Position
  /-- The property values. -/
  properties : Dictionary Json

namespace Node

/-- The value of a property. -/
def property? (node : Node) (name : String) : Option Json :=
  node.properties.find? name

/-- A property as command text; one that is absent is empty. -/
def propertyText (node : Node) (name : String) : String :=
  ((node.property? name).map Json.asText).getD ""

/-- A property as a flag; one that is absent is not set. -/
def propertyFlag (node : Node) (name : String) : Bool :=
  ((node.property? name).map Json.asFlag).getD false

/-- A property as a number. -/
def propertyNumber? (node : Node) (name : String) : Option Double :=
  (node.property? name).bind Json.asNumber?

/-- The type of the node, if the standard catalog has it. -/
def type? (node : Node) : Option NodeType :=
  Catalog.standard.find? node.tag

end Node

/-- A connection from an output pin to an input pin. -/
structure Connection where
  /-- The node that it leaves. -/
  source : NodeId
  /-- The output pin that it leaves. -/
  sourcePin : String
  /-- The node that it enters. -/
  target : NodeId
  /-- The input pin that it enters. -/
  targetPin : String
  /-- What flows through it. -/
  kind : PinKind
deriving DecidableEq

namespace Connection

/-- Whether control flows through the connection. -/
def isExec (c : Connection) : Bool :=
  c.kind.isExec

/-- Whether the connection has a node at either end. -/
def touches (c : Connection) (id : NodeId) : Bool :=
  c.source == id || c.target == id

/-- Whether the connection leaves a pin. -/
def leaves (c : Connection) (id : NodeId) (pin : String) : Bool :=
  c.source == id && c.sourcePin == pin

/-- Whether the connection enters a pin. -/
def enters (c : Connection) (id : NodeId) (pin : String) : Bool :=
  c.target == id && c.targetPin == pin

end Connection

/-- A graph of nodes. -/
structure Graph where
  /-- The nodes, in the order in which they were placed. -/
  nodes : List Node := []
  /-- The connections, in the order in which they were made. -/
  connections : List Connection := []
  /-- The number that identifies the next node to be placed. -/
  nextIndex : UInt32 := 0

namespace Graph

/-- The graph without nodes. -/
def empty : Graph := {}

/-- How many nodes there are. -/
def size (g : Graph) : Nat :=
  g.nodes.length

/-- The identities of the nodes, in the order in which they were placed. -/
def ids (g : Graph) : List NodeId :=
  g.nodes.map (·.id)

/-- The node with an identity. -/
def node? (g : Graph) (id : NodeId) : Option Node :=
  g.nodes.find? (·.id == id)

/-- The type of a node, if there is such a node and the standard catalog has its type. -/
def type? (g : Graph) (id : NodeId) : Option NodeType :=
  (g.node? id).bind Node.type?

/-- The connection that feeds an input pin. -/
def inbound? (g : Graph) (id : NodeId) (pin : String) : Option Connection :=
  g.connections.find? (·.enters id pin)

/-- Whether control enters a node through some connection. -/
def hasInboundExec (g : Graph) (id : NodeId) : Bool :=
  g.connections.any fun c => c.target == id && c.isExec

end Graph

end CommandGraph
