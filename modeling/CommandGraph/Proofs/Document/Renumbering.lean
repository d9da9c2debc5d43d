import Mathlib.Data.List.Perm.Subperm
import CommandGraph.Proofs.Document.Preservation

/-!
# Renumbering

Saving a graph and loading it again gives every node its place as its identity, and does nothing
else. A loaded graph never had more nodes than it has, so its identities count the nodes without a
gap (`Graph.WellFormed.ids_eq_range`), and saving and loading it once more changes nothing at all
(`Document.toGraph_ofGraph_toGraph`). No care was taken with the document for that: whatever it
records, its graph can be loaded again completely (`Document.complete_toGraph`).
-/

namespace CommandGraph

namespace Graph

variable {g : Graph}

/-- The renumbered nodes are the nodes in their order, each with its place. -/
theorem Complete.nodes_renumbered (h : g.Complete) :
    g.renumbered.nodes = g.nodes.mapIdx fun i node => { node with id := ⟨.ofNat i⟩ } := by
  refine List.ext_getElem (by simp [renumbered, rename]) fun i hi _ => ?_
  have hlength : i < g.nodes.length := by simpa [renumbered, rename] using hi
  have hsplit : g.nodes = g.nodes.take i ++ g.nodes[i] :: g.nodes.drop (i + 1) := by simp
  have hplace := h.place_eq hsplit
  rw [List.length_take_of_le (Nat.le_of_lt hlength)] at hplace
  simp only [renumbered, rename, List.getElem_map, List.getElem_mapIdx, Node.rename, hplace]

/-- Where as many nodes are there as were numbered, the identities count them. -/
theorem WellFormed.ids_eq_range (h : g.WellFormed) (hnext : g.nextIndex = .ofNat g.size) :
    g.ids = (List.range g.size).map fun i => ⟨.ofNat i⟩ := by
  have hrange : List.range g.nextIndex.toNat = List.range g.size := by
    rw [hnext, UInt32.toNat_ofNat_of_lt' h.size_lt]
  -- So many numbers, all different and below their count, are all the numbers below it; and both
  -- lists ascend.
  have hperm : (g.ids.map (·.index.toNat)).Perm (List.range g.size) := by
    refine (List.subperm_of_subset h.nodup_indices (hrange ▸ h.indices_subset)).perm_of_length_le ?_
    rw [List.length_range, List.length_map, length_ids]
  have hascend : (g.ids.map (·.index.toNat)).Pairwise (· < ·) :=
    List.pairwise_map.2 (h.ids_ascend.imp fun hlt => UInt32.lt_iff_toNat_lt.1 hlt)
  rw [← hperm.eq_of_pairwise (fun a b _ _ hab hba => absurd hab (Nat.lt_asymm hba)) hascend
    List.pairwise_lt_range, List.map_map]
  simp [Function.comp_def]

/-- Where the identities count the nodes, each is the place already. -/
theorem place_eq_self (hids : g.ids = (List.range g.size).map fun i => ⟨.ofNat i⟩) {id : NodeId}
    (hid : id ∈ g.ids) : g.place id = id := by
  have hlt : g.ids.idxOf id < g.ids.length := List.idxOf_lt_length_of_mem hid
  have hget : g.ids[g.ids.idxOf id]? = some id := by
    rw [List.getElem?_eq_getElem hlt, List.getElem_idxOf]
  rw [length_ids] at hlt
  nth_rewrite 1 [hids] at hget
  simpa [hlt, place] using hget

/-- Where the identities count the nodes, renumbering changes nothing. -/
theorem WellFormed.renumbered_eq_self (h : g.WellFormed) (hnext : g.nextIndex = .ofNat g.size) :
    g.renumbered = g := by
  have hplace : ∀ id ∈ g.ids, g.place id = id := fun id => place_eq_self (h.ids_eq_range hnext)
  have hnodes : g.nodes.map (·.rename g.place) = g.nodes := by
    refine (List.map_congr_left fun node hnode => ?_).trans (List.map_id _)
    rw [Node.rename, hplace node.id (List.mem_map_of_mem hnode)]
    rfl
  have hconnections : g.connections.map (·.rename g.place) = g.connections := by
    refine (List.map_congr_left fun c hc => ?_).trans (List.map_id _)
    obtain ⟨hsource, htarget⟩ := h.ends_mem c hc
    rw [Connection.rename, hplace c.source hsource, hplace c.target htarget]
    rfl
  rw [renumbered, rename, hnodes, hconnections, ← hnext]

end Graph

/-! ## The graph of any document -/

namespace Document

/-- Loading places one node for a record at most. -/
theorem size_toGraph_le (document : Document) :
    document.toGraph.size ≤ document.nodes.length := by
  have hnodes : ∀ (records : List NodeRecord) (loading : Loading),
      (records.foldl Loading.addNode loading).graph.size ≤
        loading.graph.size + records.length := by
    intro records
    induction records with
    | nil => exact fun _ => Nat.le_refl _
    | cons record rest ih =>
      intro loading
      have hrecord : (loading.addNode record).graph.size ≤ loading.graph.size + 1 := by
        cases hfind : Catalog.standard.find? record.tag with
        | none =>
          rw [loading.addNode_of_unknown hfind]
          exact Nat.le_succ _
        | some type =>
          -- Of the two edits for a record, one places a node.
          rw [loading.addNode_of_known hfind, Session.size_apply_rewrite, Session.size_apply_add]
          split <;> omega
      have hrest := ih (loading.addNode record)
      rw [List.foldl_cons, List.length_cons]
      omega
  have hconnections : ∀ (records : List ConnectionRecord) (loading : Loading),
      (records.foldl Loading.addConnection loading).graph.size = loading.graph.size := by
    intro records
    induction records with
    | nil => exact fun _ => rfl
    | cons record rest ih =>
      intro loading
      rw [List.foldl_cons, ih]
      -- A connection is left out or made, and adds no node in either case.
      rcases loading.addConnection_eq {} record with ⟨hsame, -⟩ | ⟨source, target, hedits, -⟩
      · rw [hsame]
      · rw [hedits, Session.size_apply_connect]
  have hall := hnodes document.nodes {}
  rw [toGraph, hconnections]
  simpa [Graph.size, Graph.empty] using hall

/-- Whatever a document records, all of its graph can be loaded again. -/
theorem complete_toGraph {document : Document} (h : document.nodes.length < UInt32.size) :
    document.toGraph.Complete ∧ document.toGraph.nextIndex = .ofNat document.toGraph.size := by
  obtain ⟨edits, hedits, hrun, -⟩ := Session.exists_run_eq_load document
  have hload : ∀ e ∈ edits, e.isLoad = false := fun e he => (hedits e he).isLoad_eq_false
  have hplaced : (Session.run edits).placed < UInt32.size := by
    rw [hrun]
    exact Nat.lt_of_le_of_lt document.size_toGraph_le h
  have hcomplete : (Session.run edits).graph.Complete := by
    refine Session.complete_run_of_keeps hplaced hload
      (fun e he => (hedits e he).isRetype_eq_false) fun id change hmem properties name hsome => ?_
    -- The only direct change is to lay recorded values over those that are there.
    cases hedits _ hmem with
    | overlay id data =>
      rw [Dictionary.find?_overlay, Option.isSome_or, hsome, Bool.or_true]
  have hnext := Session.nextIndex_run hload
  rw [hrun] at hcomplete hnext
  exact ⟨hcomplete, hnext⟩

/-- A loaded graph is loaded as it is. -/
theorem toGraph_ofGraph_toGraph {document : Document} (h : document.nodes.length < UInt32.size) :
    (ofGraph document.toGraph).toGraph = document.toGraph := by
  obtain ⟨hcomplete, hnext⟩ := complete_toGraph h
  rw [toGraph_ofGraph hcomplete, hcomplete.wellFormed.renumbered_eq_self hnext]

/-- Nothing is left out of the document of a graph. -/
theorem length_connections_ofGraph {g : Graph} (h : g.WellFormed) :
    (ofGraph g).connections.length = g.connections.length := by
  have hrecorded : ∀ c ∈ g.connections, recordConnection? g c = some
      { source := (g.place c.source).index, sourcePin := c.sourcePin,
        target := (g.place c.target).index, targetPin := c.targetPin, kind := c.kind.name } :=
    fun c hc => Graph.recordConnection?_eq (h.ends_mem c hc)
  rw [ofGraph, ofGraphAt, List.filterMap_congr hrecorded, List.filterMap_eq_map', List.length_map]

/-- Saving and loading a graph renumbers it and does nothing else. A graph that its own operations
reach has the same nodes afterwards, each with its place in the order of placing as its identity,
and the same connections between them; every node and every connection has a record, and every
record is loaded. The graph that comes of loading any document stays as it is. -/
theorem toGraph_ofGraph_renumbers :
    (∀ edits : List Edit, (∀ e ∈ edits, e.isOperation) →
      (Session.run edits).placed < UInt32.size →
      let g := (Session.run edits).graph
      let document := ofGraph g
      document.toGraph.nodes = g.nodes.mapIdx (fun i node => { node with id := ⟨.ofNat i⟩ }) ∧
      document.toGraph.connections = g.connections.map (fun c => { c with
        source := ⟨.ofNat (g.ids.idxOf c.source)⟩, target := ⟨.ofNat (g.ids.idxOf c.target)⟩ }) ∧
      document.toGraph.nextIndex = .ofNat g.size ∧
      document.nodes.length = document.toGraph.nodes.length ∧
      document.connections.length = document.toGraph.connections.length) ∧
    ∀ document : Document, document.nodes.length < UInt32.size →
      (ofGraph document.toGraph).toGraph = document.toGraph := by
  refine ⟨fun edits hoperations hplaced => ?_, fun document => toGraph_ofGraph_toGraph⟩
  intro g document
  -- Operations keep a graph such that all of it can be recorded and loaded.
  have hg : g.Complete := Session.complete_run hoperations hplaced
  have hgraph : document.toGraph = g.renumbered := toGraph_ofGraph hg
  rw [hgraph]
  refine ⟨hg.nodes_renumbered, rfl, rfl, ?_, ?_⟩
  · simp [document, ofGraph, ofGraphAt, Graph.renumbered, Graph.rename]
  · rw [length_connections_ofGraph hg.wellFormed, Graph.renumbered, Graph.rename, List.length_map]

/-- A document with a node of no type, a number for two nodes, a property that no type declares, and
connections of which only the second can be made: of the others one has no source, one leads to its
own node, and one joins pins of different kinds. -/
def careless : Document where
  version := 7
  nodes := [⟨5, "chat_command", .zero, .zero, .empty⟩, ⟨1, "nothing", .zero, .zero, .empty⟩,
    ⟨3, "say", .one, .zero, .ofList [("colour", .null)]⟩, ⟨3, "say", .zero, .one, .empty⟩]
  connections := [⟨1, "Exec", 3, "Exec", "exec"⟩, ⟨5, "Exec", 3, "Exec", "string"⟩,
    ⟨3, "Exec", 3, "Exec", "exec"⟩, ⟨5, "Exec", 3, "message", "exec"⟩]

/-- The gap in front of a loop is closed, and what is left of a careless document stays. -/
theorem toGraph_ofGraph_renumbers_loopBehindGap :
    let edits := Session.loopBehindGap
    let g := (Session.run edits).graph
    (∀ e ∈ edits, e.isOperation) ∧ (Session.run edits).placed < UInt32.size ∧
      g.ids = [⟨0⟩, ⟨2⟩, ⟨3⟩] ∧ (ofGraph g).toGraph.ids = [⟨0⟩, ⟨1⟩, ⟨2⟩] ∧
      (ofGraph g).toGraph.connections =
        [⟨⟨0⟩, "Exec", ⟨1⟩, "Exec", .exec⟩, ⟨⟨1⟩, "Loop Body", ⟨2⟩, "Exec", .exec⟩] ∧
      careless.nodes.length < UInt32.size ∧ careless.toGraph.ids = [⟨0⟩, ⟨1⟩, ⟨2⟩] ∧
      careless.toGraph.connections = [⟨⟨0⟩, "Exec", ⟨2⟩, "Exec", .exec⟩] ∧
      (ofGraph careless.toGraph).toGraph = careless.toGraph := by
  have hoperations : ∀ e ∈ Session.loopBehindGap, e.isOperation := by decide
  have hplaced : (Session.run Session.loopBehindGap).placed < UInt32.size := by decide
  obtain ⟨hnodes, hconnections, -⟩ := toGraph_ofGraph_renumbers.1 _ hoperations hplaced
  refine ⟨hoperations, hplaced, by decide, ?_, ?_, by decide, by decide, by decide,
    toGraph_ofGraph_renumbers.2 careless (by decide)⟩
  · rw [Graph.ids, hnodes]
    decide +kernel
  · rw [hconnections]
    decide +kernel

end Document

end CommandGraph
