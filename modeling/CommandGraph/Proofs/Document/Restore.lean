import CommandGraph.Proofs.Compile.Similarity
import CommandGraph.Proofs.Graph.Consistency

/-!
# Loading what was saved

A document knows a node by its place in the list of nodes, and loading numbers the nodes anew in the
same order. So from the document of a graph comes the graph in which every node has its place as its
identity (`Graph.renumbered`): the same tags, positions, property values and connections in the same
order (`Document.toGraph_ofGraph`). Nothing is left out, because in a well-typed graph every record
can be placed and connected again, and nothing is added, because every property that a type declares
has a recorded value that replaces the default.
-/

namespace CommandGraph

namespace Graph

variable {g : Graph}

/-- The place of a node as an identity. -/
def place (g : Graph) (id : NodeId) : NodeId :=
  ⟨.ofNat (g.ids.idxOf id)⟩

/-- The graph in which every node has its place as its identity. -/
def renumbered (g : Graph) : Graph :=
  g.rename g.place (.ofNat g.size)

/-- What a graph needs for all of it to be loaded again. -/
structure Complete (g : Graph) : Prop where
  /-- It is well formed. -/
  wellFormed : g.WellFormed
  /-- It is well typed. -/
  wellTyped : g.WellTyped
  /-- A node has every property that its type declares. -/
  declared : ∀ node ∈ g.nodes, ∀ type, node.type? = some type → ∀ property ∈ type.properties,
    (node.property? property.name).isSome

/-- The number that a node is saved under is its place. -/
theorem placeOf?_eq {id : NodeId} (hid : id ∈ g.ids) :
    Document.placeOf? g id = some (g.place id).index := by
  obtain ⟨i, hi⟩ := Option.isSome_iff_exists.1 (List.isSome_idxOf?.2 hid)
  rw [Document.placeOf?, place, List.idxOf_eq_getD_idxOf?, hi]
  rfl

/-- The ends of a connection are saved under their places. -/
theorem recordConnection?_eq {c : Connection} (hc : c.source ∈ g.ids ∧ c.target ∈ g.ids) :
    Document.recordConnection? g c = some
      { source := (g.place c.source).index, sourcePin := c.sourcePin,
        target := (g.place c.target).index, targetPin := c.targetPin, kind := c.kind.name } := by
  rw [Document.recordConnection?, placeOf?_eq hc.1, placeOf?_eq hc.2]
  rfl

namespace Complete

variable (h : g.Complete)

include h

/-- Different nodes have different places. -/
theorem place_injOn : Set.InjOn g.place {id | id ∈ g.ids} := by
  intro a ha b hb heq
  have hlt : ∀ id ∈ g.ids, g.ids.idxOf id < UInt32.size := fun id hid =>
    Nat.lt_trans (g.length_ids ▸ List.idxOf_lt_length_of_mem hid) h.wellFormed.size_lt
  have hindex : UInt32.ofNat (g.ids.idxOf a) = UInt32.ofNat (g.ids.idxOf b) :=
    congrArg NodeId.index heq
  have htoNat := congrArg UInt32.toNat hindex
  rw [UInt32.toNat_ofNat_of_lt' (hlt a ha), UInt32.toNat_ofNat_of_lt' (hlt b hb)] at htoNat
  exact (List.idxOf_inj ha).1 htoNat

/-- A node differs from those before it. -/
theorem id_notMem {before after : List Node} {node : Node}
    (hnodes : g.nodes = before ++ node :: after) : node.id ∉ before.map (·.id) := by
  have hnodup := h.wellFormed.nodup_ids
  rw [ids, hnodes, List.map_append, List.map_cons] at hnodup
  exact fun hmem => (List.nodup_append.1 hnodup).2.2 _ hmem _ List.mem_cons_self rfl

/-- The place of a node is the number of nodes before it. -/
theorem place_eq {before after : List Node} {node : Node}
    (hnodes : g.nodes = before ++ node :: after) : g.place node.id = ⟨.ofNat before.length⟩ := by
  rw [place, ids, hnodes, List.map_append, List.map_cons,
    List.idxOf_append_of_notMem (h.id_notMem hnodes), List.idxOf_cons_self, List.length_map,
    Nat.add_zero]

end Complete

end Graph

/-- A type has defaults for the properties that it declares and for no others. -/
theorem NodeType.exists_property_of_find?_defaults {type : NodeType} {name : String}
    (h : (type.defaults.find? name).isSome) :
    ∃ property ∈ type.properties, property.name = name := by
  obtain ⟨value, hvalue⟩ := Option.isSome_iff_exists.1 h
  have hmem := Dictionary.mem_of_mem_entries_ofList (Entries.mem_of_lookup hvalue)
  obtain ⟨property, hproperty, heq⟩ := List.mem_map.1 hmem
  exact ⟨property, hproperty, congrArg Prod.fst heq⟩

namespace Document

/-! ## One record -/

namespace Loading

/-- What has been loaded are some nodes and connections of a graph, with places as identities, and
every node is known by its place. -/
structure Restores (g : Graph) (nodes : List Node) (connections : List Connection)
    (loading : Loading) : Prop where
  /-- The nodes. -/
  nodes_eq : loading.graph.nodes = nodes.map (·.rename g.place)
  /-- The connections. -/
  connections_eq : loading.graph.connections = connections.map (·.rename g.place)
  /-- The next node gets the next place. -/
  nextIndex_eq : loading.graph.nextIndex = .ofNat nodes.length
  /-- The number of a node in the document is its place. -/
  lookup_eq : ∀ node ∈ nodes, loading.ids.lookup (g.place node.id).index = some (g.place node.id)

/-- A recorded node of a standard type is placed last, with the recorded values over the
defaults. -/
theorem addNode_eq {loading : Loading} {record : NodeRecord} {type : NodeType}
    (htype : Catalog.standard.find? record.tag = some type)
    (hfresh : ∀ node ∈ loading.graph.nodes, node.id ≠ ⟨loading.graph.nextIndex⟩) :
    loading.addNode record =
      { graph := { loading.graph with
          nodes := loading.graph.nodes ++
            [⟨⟨loading.graph.nextIndex⟩, type.tag, ⟨record.x, record.y⟩,
              type.defaults.overlay record.data⟩]
          nextIndex := loading.graph.nextIndex + 1 }
        ids := (record.id, ⟨loading.graph.nextIndex⟩) :: loading.ids } := by
  rw [addNode, Graph.addNode, htype]
  have hstay : ∀ change : Node → Node, loading.graph.nodes.map (fun node =>
      if node.id = ⟨loading.graph.nextIndex⟩ then change node else node) = loading.graph.nodes :=
    fun change => (List.map_congr_left fun node hnode => if_neg (hfresh node hnode)).trans
      (List.map_id' _)
  simp only [Graph.modifyNode, List.map_append, List.map_singleton, if_true, hstay]

variable {g : Graph} (hg : g.Complete) {loading : Loading}

include hg

/-- Placing the record of the next node restores it. -/
theorem Restores.addNode {before after : List Node} {node : Node}
    (h : loading.Restores g before []) (hnodes : g.nodes = before ++ node :: after) :
    (loading.addNode (recordNode node before.length)).Restores g (before ++ [node]) [] := by
  have hmem : node ∈ g.nodes := hnodes ▸ List.mem_append_right _ List.mem_cons_self
  obtain ⟨type, htype⟩ := hg.wellTyped.typed node hmem
  have hplace : g.place node.id = ⟨loading.graph.nextIndex⟩ := by
    rw [hg.place_eq hnodes, h.nextIndex_eq]
  have hapart : ∀ other ∈ before, g.place other.id ≠ g.place node.id := by
    intro other hother heq
    have hmemOther : other ∈ g.nodes := hnodes ▸ List.mem_append_left _ hother
    have hsame : other.id = node.id :=
      hg.place_injOn (List.mem_map_of_mem hmemOther) (List.mem_map_of_mem hmem) heq
    exact hg.id_notMem hnodes (List.mem_map.2 ⟨other, hother, hsame⟩)
  have hoverlay : type.defaults.overlay node.properties = node.properties :=
    Dictionary.overlay_eq fun name hname => by
      obtain ⟨property, hproperty, rfl⟩ := NodeType.exists_property_of_find?_defaults hname
      exact hg.declared node hmem type htype property hproperty
  -- Laying the values over the defaults changes the new node alone.
  have hfresh : ∀ placed ∈ loading.graph.nodes, placed.id ≠ ⟨loading.graph.nextIndex⟩ := by
    rw [h.nodes_eq, ← hplace]
    exact List.forall_mem_map.2 hapart
  have hid : (recordNode node before.length).id = (g.place node.id).index := by
    rw [hg.place_eq hnodes]
    rfl
  rw [@addNode_eq loading (recordNode node before.length) type htype hfresh, ← hplace, hid]
  refine ⟨?_, h.connections_eq, ?_, ?_⟩
  · rw [List.map_append, h.nodes_eq, List.map_singleton, (Catalog.find?_eq_some htype).2]
    simp only [recordNode, hoverlay, Node.rename]
  · simp [h.nextIndex_eq, UInt32.ofNat_add]
  · refine List.forall_mem_append.2 ⟨fun other hother => ?_, List.forall_mem_singleton.2 ?_⟩
    · have hne : ((g.place other.id).index == (g.place node.id).index) = false := by
        rw [beq_eq_false_iff_ne]
        exact fun heq => hapart other hother (congrArg NodeId.mk heq)
      rw [List.lookup_cons, hne]
      exact h.lookup_eq other hother
    · exact List.lookup_cons_self

/-- A node is found under its place, with its tag. -/
theorem Restores.tag?_eq {connections : List Connection}
    (h : loading.Restores g g.nodes connections) {id : NodeId} (hid : id ∈ g.ids) :
    loading.graph.tag? (g.place id) = g.tag? id := by
  have hfound : g.renumbered.node? (g.place id) = (g.node? id).map (·.rename g.place) :=
    Graph.node?_rename hg.place_injOn hid
  rw [Graph.node?, Graph.renumbered, Graph.rename, ← h.nodes_eq] at hfound
  rw [Graph.tag?, Graph.tag?, Graph.node?, hfound, Option.map_map]
  rfl

/-- Making the record of the next connection restores it. -/
theorem Restores.addConnection {before after : List Connection} {c : Connection}
    {record : ConnectionRecord} (h : loading.Restores g g.nodes before)
    (hconnections : g.connections = before ++ c :: after)
    (hrecord : recordConnection? g c = some record) :
    (loading.addConnection record).Restores g g.nodes (before ++ [c]) := by
  have hc : c ∈ g.connections := hconnections ▸ List.mem_append_right _ List.mem_cons_self
  obtain ⟨hsource, htarget⟩ := hg.wellFormed.ends_mem c hc
  have hlookup : ∀ id ∈ g.ids, loading.ids.lookup (g.place id).index = some (g.place id) :=
    List.forall_mem_map.2 h.lookup_eq
  have hne : g.place c.source ≠ g.place c.target := fun heq =>
    hg.wellFormed.ends_ne c hc (hg.place_injOn hsource htarget heq)
  -- Nothing before the connection enters its input pin, so it replaces nothing.
  have hothers : loading.graph.connections.filter
      (!·.enters (g.place c.target) c.targetPin) = loading.graph.connections := by
    rw [List.filter_eq_self, h.connections_eq, List.forall_mem_map]
    intro d hd
    have hsingle := (List.pairwise_append.1 (hconnections ▸ hg.wellFormed.single)).2.2 d hd c
      List.mem_cons_self
    have hends := hg.wellFormed.ends_mem d (hconnections ▸ List.mem_append_left _ hd)
    simpa [Connection.enters, Connection.rename,
      Graph.rename_beq hg.place_injOn htarget hends.2] using not_and_or.1 hsingle
  have hconnect : loading.graph.connect (g.place c.source) c.sourcePin (g.place c.target)
      c.targetPin = .ok { loading.graph with
        connections := loading.graph.connections ++ [c.rename g.place] } := by
    refine Graph.connect_eq_ok_iff.2 ⟨c.kind, hne, ?_, ?_, by rw [hothers]; rfl⟩
    · exact Graph.pinKind_eq_ok_of_tag? (h.tag?_eq hg hsource) (hg.wellTyped.output_kind c hc)
    · exact Graph.pinKind_eq_ok_of_tag? (h.tag?_eq hg htarget) (hg.wellTyped.input_kind c hc)
  obtain rfl := Option.some.inj ((Graph.recordConnection?_eq ⟨hsource, htarget⟩).symm.trans hrecord)
  rw [Loading.addConnection]
  simp only [hlookup _ hsource, hlookup _ htarget, hconnect]
  refine ⟨h.nodes_eq, ?_, h.nextIndex_eq, h.lookup_eq⟩
  rw [h.connections_eq, List.map_append, List.map_singleton]

/-! ## All records -/

/-- Placing the records of all nodes restores the nodes. -/
theorem Restores.foldl_addNode {before after : List Node} (h : loading.Restores g before [])
    (hnodes : g.nodes = before ++ after) :
    (((after.zipIdx before.length).map fun (node, place) => recordNode node place).foldl
      Loading.addNode loading).Restores g g.nodes [] := by
  induction after generalizing before loading with
  | nil =>
    rw [List.append_nil] at hnodes
    exact hnodes ▸ h
  | cons node after ih =>
    rw [List.zipIdx_cons, List.map_cons, List.foldl_cons]
    have hlength : (before ++ [node]).length = before.length + 1 := by simp
    rw [← hlength]
    exact ih (h.addNode hg hnodes) (by simp [hnodes])

/-- Making the records of all connections restores the connections. -/
theorem Restores.foldl_addConnection {before after : List Connection}
    (h : loading.Restores g g.nodes before) (hconnections : g.connections = before ++ after) :
    ((after.filterMap (recordConnection? g)).foldl Loading.addConnection loading).Restores g g.nodes
      g.connections := by
  induction after generalizing before loading with
  | nil =>
    rw [List.append_nil] at hconnections
    exact hconnections ▸ h
  | cons c after ih =>
    have hends := hg.wellFormed.ends_mem c
      (hconnections ▸ List.mem_append_right _ List.mem_cons_self)
    have hrecord := Graph.recordConnection?_eq hends
    rw [List.filterMap_cons_some hrecord, List.foldl_cons]
    exact ih (h.addConnection hg hconnections hrecord) (by simp [hconnections])

omit hg in
/-- What restores all nodes and connections restores the graph. -/
theorem Restores.graph_eq (h : loading.Restores g g.nodes g.connections) :
    loading.graph = g.renumbered := by
  obtain ⟨⟨nodes, connections, nextIndex⟩, ids⟩ := loading
  obtain ⟨rfl, rfl, rfl, -⟩ := h
  rfl

end Loading

/-- The document of a graph is loaded as the graph with places as identities. -/
theorem toGraph_ofGraph {g : Graph} (hg : g.Complete) : (ofGraph g).toGraph = g.renumbered := by
  have hempty : Loading.Restores g [] [] {} := ⟨rfl, rfl, rfl, List.forall_mem_nil _⟩
  have hnodes := hempty.foldl_addNode hg (List.nil_append _).symm
  exact (hnodes.foldl_addConnection hg (List.nil_append _).symm).graph_eq

end Document

end CommandGraph
