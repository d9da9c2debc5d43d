import CommandGraph.Graph.Basic
import Std.Data.TreeMap

/-!
# Wiring

The connections of a graph, indexed by the nodes that they leave and enter. The index is built once
and keeps the order of the connections at each node, so every look-up in it finds what a search
through the whole list of connections would find.
-/

namespace CommandGraph

/-- Connections, grouped by a node. -/
abbrev ConnectionIndex := Std.TreeMap UInt32 (List Connection)

namespace ConnectionIndex

/-- Puts a connection in front of those grouped under a node. -/
def push (index : ConnectionIndex) (id : NodeId) (c : Connection) : ConnectionIndex :=
  index.insert id.index (c :: index.getD id.index [])

/-- Groups connections by a node of each, and keeps their order. -/
def groupBy (key : Connection → NodeId) (connections : List Connection) : ConnectionIndex :=
  -- From the last connection to the first, so that pushing in front keeps the order.
  connections.foldr (fun c index => index.push (key c) c) {}

/-- The connections grouped under a node. -/
def find (index : ConnectionIndex) (id : NodeId) : List Connection :=
  index.getD id.index []

/-- A pushed connection stands in front at its node, and every other node has what it had. -/
theorem find_push (index : ConnectionIndex) (id other : NodeId) (c : Connection) :
    (index.push id c).find other =
      if id = other then c :: index.find other else index.find other := by
  simp only [find, push, Std.TreeMap.getD_insert, Std.LawfulEqCmp.compare_eq_iff_eq]
  by_cases h : id = other
  · simp [h]
  · have : id.index ≠ other.index := fun heq => h (by cases id; cases other; simp_all)
    simp [h, this]

/-- A node has the connections whose key it is, in their order. -/
theorem find_groupBy (key : Connection → NodeId) (connections : List Connection) (id : NodeId) :
    (groupBy key connections).find id = connections.filter (key · == id) := by
  induction connections with
  | nil => simp [groupBy, find]
  | cons c rest ih =>
    rw [groupBy, List.foldr_cons, find_push, List.filter_cons]
    rw [groupBy] at ih
    rw [ih]
    by_cases h : key c = id <;> simp [h]

end ConnectionIndex

/-- The connections of a graph, indexed. -/
structure Wiring where
  /-- The connections by the node that they enter. -/
  inbound : ConnectionIndex
  /-- The connections by the node that they leave. -/
  outbound : ConnectionIndex

namespace Wiring

/-- Indexes a list of connections. -/
def ofConnections (connections : List Connection) : Wiring where
  inbound := .groupBy (·.target) connections
  outbound := .groupBy (·.source) connections

/-- The connection that feeds an input pin. -/
def inbound? (wiring : Wiring) (id : NodeId) (pin : String) : Option Connection :=
  (wiring.inbound.find id).find? (·.enters id pin)

/-- The first connection that leaves an output pin. -/
def outgoing? (wiring : Wiring) (id : NodeId) (pin : String) : Option Connection :=
  (wiring.outbound.find id).find? (·.leaves id pin)

/-- The first connection through which control leaves a node, by whatever pin. -/
def nextExec? (wiring : Wiring) (id : NodeId) : Option Connection :=
  (wiring.outbound.find id).find? (·.isExec)

/-- Whether control enters a node through some connection. -/
def hasInboundExec (wiring : Wiring) (id : NodeId) : Bool :=
  (wiring.inbound.find id).any (·.isExec)

/-! ## The index answers like the list -/

/-- The connection that feeds an input pin is the first one of the list that enters it. -/
theorem inbound?_ofConnections (connections : List Connection) (id : NodeId) (pin : String) :
    (ofConnections connections).inbound? id pin = connections.find? (·.enters id pin) := by
  rw [inbound?, ofConnections, ConnectionIndex.find_groupBy, List.find?_filter]
  congr 1
  funext c
  rw [Bool.eq_iff_iff]
  simp [Connection.enters]

/-- The first connection that leaves an output pin is the first one of the list that does. -/
theorem outgoing?_ofConnections (connections : List Connection) (id : NodeId) (pin : String) :
    (ofConnections connections).outgoing? id pin = connections.find? (·.leaves id pin) := by
  rw [outgoing?, ofConnections, ConnectionIndex.find_groupBy, List.find?_filter]
  congr 1
  funext c
  rw [Bool.eq_iff_iff]
  simp [Connection.leaves]

/-- Control leaves a node through the first connection of the list that carries it away. -/
theorem nextExec?_ofConnections (connections : List Connection) (id : NodeId) :
    (ofConnections connections).nextExec? id =
      connections.find? fun c => c.source == id && c.isExec := by
  rw [nextExec?, ofConnections, ConnectionIndex.find_groupBy, List.find?_filter]
  congr 1
  funext c
  rw [Bool.eq_iff_iff]
  simp

/-- Control enters a node exactly if some connection of the list brings it there. -/
theorem hasInboundExec_ofConnections (connections : List Connection) (id : NodeId) :
    (ofConnections connections).hasInboundExec id =
      connections.any fun c => c.target == id && c.isExec := by
  rw [hasInboundExec, ofConnections, ConnectionIndex.find_groupBy, List.any_filter]

end Wiring

end CommandGraph
