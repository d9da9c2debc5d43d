import CommandGraph.Document.Basic
import CommandGraph.Graph.Arena

/-!
# Graphs and documents

Saving numbers the nodes of a graph by their places. Loading places the recorded nodes again and
makes the recorded connections, as far as the catalog allows: a record that cannot be placed or
connected is left out, and the rest is loaded.
-/

namespace CommandGraph

namespace Document

/-- The place of a node in a graph. -/
def placeOf? (g : Graph) (id : NodeId) : Option UInt32 :=
  (g.ids.idxOf? id).map UInt32.ofNat

/-- The record of a node at a place. -/
def recordNode (node : Node) (place : Nat) : NodeRecord where
  id := .ofNat place
  tag := node.tag
  x := node.position.x
  y := node.position.y
  data := node.properties

/-- The record of a connection, if both its nodes are there. -/
def recordConnection? (g : Graph) (c : Connection) : Option ConnectionRecord := do
  let source ← placeOf? g c.source
  let target ← placeOf? g c.target
  return { source, sourcePin := c.sourcePin, target, targetPin := c.targetPin, kind := c.kind.name }

/-- The document of a graph that is seen through a viewport. -/
def ofGraphAt (viewport : Viewport) (g : Graph) : Document where
  version := documentVersion
  viewport := viewport
  nodes := g.nodes.zipIdx.map fun (node, place) => recordNode node place
  connections := g.connections.filterMap (recordConnection? g)

/-- The document of a graph. -/
def ofGraph (g : Graph) : Document :=
  ofGraphAt {} g

/-- How far a document has been loaded. -/
structure Loading where
  /-- The graph so far. -/
  graph : Graph := .empty
  /-- The identity of the node for each recorded number, the latest first. -/
  ids : List (UInt32 × NodeId) := []

namespace Loading

/-- Places a recorded node, with the recorded values laid over the defaults of its type. -/
def addNode (loading : Loading) (record : NodeRecord) : Loading :=
  match loading.graph.addNode record.tag ⟨record.x, record.y⟩ with
  | .error _ => loading
  | .ok (id, graph) =>
    let overlay (node : Node) : Node :=
      { node with properties := node.properties.overlay record.data }
    -- A number recorded twice means its later node, which a look-up finds first.
    { graph := graph.modifyNode id overlay, ids := (record.id, id) :: loading.ids }

/-- Makes a recorded connection. -/
def addConnection (loading : Loading) (record : ConnectionRecord) : Loading :=
  match loading.ids.lookup record.source, loading.ids.lookup record.target with
  | some source, some target =>
    match loading.graph.connect source record.sourcePin target record.targetPin with
    | .ok graph => { loading with graph }
    | .error _ => loading
  | _, _ => loading

end Loading

/-- The graph of a document. -/
def toGraph (document : Document) : Graph :=
  let placed := document.nodes.foldl Loading.addNode {}
  (document.connections.foldl Loading.addConnection placed).graph

/-! ## Loading into an arena -/

/-- Places a recorded node in an arena, given the identities of those placed before it. -/
def restoreNode (ids : List (UInt32 × NodeId)) (record : NodeRecord) :
    StateM Arena (List (UInt32 × NodeId)) := do
  match ← (Arena.addNode record.tag ⟨record.x, record.y⟩).run with
  | .error _ => return ids
  | .ok id =>
    let overlay (node : Node) : Node :=
      { node with properties := node.properties.overlay record.data }
    let _ ← (Arena.editNode id overlay).run
    return (record.id, id) :: ids

/-- Makes a recorded connection in an arena. -/
def restoreConnection (ids : List (UInt32 × NodeId)) (record : ConnectionRecord) :
    StateM Arena Unit := do
  match ids.lookup record.source, ids.lookup record.target with
  | some source, some target =>
    let _ ← (Arena.connect source record.sourcePin target record.targetPin).run
  | _, _ => return

/-- The arena into which a document is loaded. -/
def toArena (document : Document) : Arena :=
  let restore : StateM Arena Unit := do
    let ids ← document.nodes.foldlM restoreNode []
    forM document.connections (restoreConnection ids)
  (restore.run {}).2

end Document

end CommandGraph
