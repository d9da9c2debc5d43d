import CommandGraph.Proofs.Document.Restore

/-!
# What is loaded of a document

Loading takes over whatever it can. This says what that is, for any document, and without going
through the records one after another: the nodes are the records of types that the catalog has, in
their order (`kept`); a number means the last of these that has it (`meant?`); a connection is made
if both its numbers mean a node, the nodes differ, and the pins are there and of one kind
(`connection?`); and of the connections into one input pin the last one stays (`latest`). A record
that is left out leaves no trace.
-/

namespace CommandGraph

namespace Graph

variable {g : Graph} {id : NodeId} {type : NodeType} {pin : String} {kind : PinKind}

theorem pinKind_output_iff (h : g.type? id = some type) :
    g.pinKind id .output pin = .ok kind ↔ (type.output? pin).map (·.kind) = some kind := by
  obtain ⟨node, hnode, htype⟩ := Option.bind_eq_some_iff.1 h
  simp only [pinKind, pinKindOf, hnode, htype]
  cases type.output? pin <;> simp

theorem pinKind_input_iff (h : g.type? id = some type) :
    g.pinKind id .input pin = .ok kind ↔ (type.input? pin).map (·.kind) = some kind := by
  obtain ⟨node, hnode, htype⟩ := Option.bind_eq_some_iff.1 h
  simp only [pinKind, pinKindOf, hnode, htype]
  cases type.input? pin <;> simp

end Graph

namespace Document

/-- A recorded node that can be placed, since the catalog has its type. -/
structure KeptRecord where
  /-- The record. -/
  record : NodeRecord
  /-- The type. -/
  type : NodeType
  /-- The type is that of the record. -/
  type_eq : Catalog.standard.find? record.tag = some type

/-- A recorded node with its type, if the catalog has it. -/
def KeptRecord.of? (record : NodeRecord) : Option KeptRecord :=
  match h : Catalog.standard.find? record.tag with
  | none => none
  | some type => some ⟨record, type, h⟩

/-- The node of a record. Its identity is its place among the records that are kept, and it has the
recorded values and, for properties that have none, the defaults of its type. -/
def KeptRecord.node (kept : KeptRecord) (place : Nat) : Node where
  id := ⟨.ofNat place⟩
  tag := kept.record.tag
  position := ⟨kept.record.x, kept.record.y⟩
  properties := kept.type.defaults.overlay kept.record.data

/-- The records that are kept. -/
def kept (document : Document) : List KeptRecord :=
  document.nodes.filterMap KeptRecord.of?

/-- The node that a number means, which is the last with that number, and its place. -/
def meant? (kept : List KeptRecord) (number : UInt32) : Option (KeptRecord × Nat) :=
  (kept.zipIdx.filter (·.1.record.id == number)).getLast?

/-- The connection that is recorded, if it can be made. -/
def connection? (kept : List KeptRecord) (record : ConnectionRecord) : Option Connection := do
  let (source, sourcePlace) ← meant? kept record.source
  let (target, targetPlace) ← meant? kept record.target
  let output ← source.type.output? record.sourcePin
  let input ← target.type.input? record.targetPin
  if sourcePlace ≠ targetPlace ∧ output.kind = input.kind then
    return { source := ⟨.ofNat sourcePlace⟩, sourcePin := record.sourcePin,
             target := ⟨.ofNat targetPlace⟩, targetPin := record.targetPin, kind := output.kind }
  else none

/-- A connection can be made if both numbers mean a node, the nodes differ, and the pins are there
and of one kind. -/
theorem connection?_eq_some_iff {kept : List KeptRecord} {record : ConnectionRecord}
    {c : Connection} : connection? kept record = some c ↔
      ∃ source sourcePlace target targetPlace output input,
        meant? kept record.source = some (source, sourcePlace) ∧
        meant? kept record.target = some (target, targetPlace) ∧
        source.type.output? record.sourcePin = some output ∧
        target.type.input? record.targetPin = some input ∧
        sourcePlace ≠ targetPlace ∧ output.kind = input.kind ∧
        { source := ⟨.ofNat sourcePlace⟩, sourcePin := record.sourcePin,
          target := ⟨.ofNat targetPlace⟩, targetPin := record.targetPin,
          kind := output.kind } = c := by
  simp [connection?, Option.bind_eq_some_iff, and_assoc]

/-- The connections without those into whose input pin a later one leads. -/
def latest : List Connection → List Connection
  | [] => []
  | c :: later =>
    if later.any (·.enters c.target c.targetPin) then latest later else c :: latest later

/-- One more connection drives out the one into its input pin. -/
theorem latest_concat (connections : List Connection) (c : Connection) :
    latest (connections ++ [c]) =
      (latest connections).filter (!·.enters c.target c.targetPin) ++ [c] := by
  induction connections with
  | nil => rfl
  | cons d later ih =>
    have hsymm : c.enters d.target d.targetPin = d.enters c.target c.targetPin := by
      rw [Connection.enters, Connection.enters, BEq.comm, BEq.comm (a := c.targetPin)]
    rw [List.cons_append, latest, latest, List.any_append, ih]
    cases hlater : later.any (·.enters d.target d.targetPin) with
    | true => simp
    | false => cases henters : d.enters c.target c.targetPin <;> simp [hsymm, henters]

/-! ## Numbers -/

theorem meant?_concat (kept : List KeptRecord) (r : KeptRecord) (number : UInt32) :
    meant? (kept ++ [r]) number =
      if r.record.id = number then some (r, kept.length) else meant? kept number := by
  rw [meant?, List.zipIdx_append, List.filter_append]
  by_cases h : r.record.id = number
  · simp [h]
  · simp [h, meant?]

theorem getElem?_of_meant? {kept : List KeptRecord} {number : UInt32} {r : KeptRecord} {place : Nat}
    (h : meant? kept number = some (r, place)) : kept[place]? = some r := by
  have hmem := (List.mem_filter.1 (List.mem_of_getLast? h)).1
  exact List.mem_zipIdx_iff_getElem?.1 hmem

/-- Different places are different identities. -/
theorem ofNat_place_inj {count place place' : Nat} (hcount : count ≤ UInt32.size)
    (h : place < count) (h' : place' < count) :
    (⟨.ofNat place⟩ : NodeId) = ⟨.ofNat place'⟩ ↔ place = place' := by
  refine ⟨fun heq => ?_, fun heq => by rw [heq]⟩
  have htoNat := congrArg (fun id : NodeId => id.index.toNat) heq
  simpa [UInt32.toNat_ofNat_of_lt' (Nat.lt_of_lt_of_le h hcount),
    UInt32.toNat_ofNat_of_lt' (Nat.lt_of_lt_of_le h' hcount)] using htoNat

namespace Loading

variable {kept : List KeptRecord} {connections : List Connection} {loading : Loading}

/-! ## Nodes -/

/-- The nodes of some records have been placed and some connections made. -/
structure Holds (kept : List KeptRecord) (connections : List Connection) (loading : Loading) :
    Prop where
  /-- These are the nodes. -/
  nodes_eq : loading.graph.nodes = kept.mapIdx fun place r => r.node place
  /-- Of the connections the last one into each input pin is there. -/
  connections_eq : loading.graph.connections = latest connections
  /-- The next node gets the next place. -/
  nextIndex_eq : loading.graph.nextIndex = .ofNat kept.length
  /-- A number is known as the node that it means. -/
  lookup_eq : ∀ number,
    loading.ids.lookup number = (meant? kept number).map fun found => ⟨.ofNat found.2⟩

theorem holds_nil : Holds [] [] {} :=
  ⟨rfl, rfl, rfl, fun _ => rfl⟩

/-- A record of a type that the catalog does not have is left out. -/
theorem addNode_of_none {record : NodeRecord} (h : KeptRecord.of? record = none) :
    loading.addNode record = loading := by
  have hfind : Catalog.standard.find? record.tag = none := by
    unfold KeptRecord.of? at h
    split at h
    next hfind => exact hfind
    next => cases h
  rw [addNode, Graph.addNode, hfind]

theorem record_of_some {record : NodeRecord} {r : KeptRecord} (h : KeptRecord.of? record = some r) :
    r.record = record := by
  unfold KeptRecord.of? at h
  split at h
  next => cases h
  next => rw [← Option.some.inj h]

/-- Any other record gives one more node. -/
theorem Holds.addNode (h : loading.Holds kept connections) (hroom : kept.length < UInt32.size)
    (r : KeptRecord) : (loading.addNode r.record).Holds (kept ++ [r]) connections := by
  have hfresh : ∀ node ∈ loading.graph.nodes, node.id ≠ ⟨loading.graph.nextIndex⟩ := by
    intro node hnode heq
    rw [h.nodes_eq] at hnode
    obtain ⟨place, hplace, rfl⟩ := List.mem_mapIdx.1 hnode
    rw [h.nextIndex_eq] at heq
    have hsame := (ofNat_place_inj hroom (Nat.lt_succ_of_lt hplace) (Nat.lt_succ_self _)).1 heq
    omega
  rw [addNode_eq r.type_eq hfresh]
  -- The new node comes last, and from now on its number means it, whatever it meant before.
  refine ⟨?_, h.connections_eq, ?_, fun number => ?_⟩
  · rw [List.mapIdx_append, h.nodes_eq, h.nextIndex_eq, (Catalog.find?_eq_some r.type_eq).2]
    simp [KeptRecord.node]
  · simp [h.nextIndex_eq, UInt32.ofNat_add]
  · rw [meant?_concat, List.lookup_cons, h.nextIndex_eq, h.lookup_eq]
    by_cases hnumber : r.record.id = number
    · simp [hnumber]
    · rw [if_neg hnumber, beq_eq_false_iff_ne.2 (Ne.symm hnumber)]

/-- Placing the recorded nodes keeps those that can be placed. -/
theorem Holds.foldl_addNode {records : List NodeRecord} (h : loading.Holds kept connections)
    (hroom : kept.length + records.length ≤ UInt32.size) :
    (records.foldl Loading.addNode loading).Holds
      (kept ++ records.filterMap KeptRecord.of?) connections := by
  -- What is kept grows along the way, and so does what a number may mean.
  induction records generalizing kept loading with
  | nil => simpa using h
  | cons record records ih =>
    rw [List.length_cons] at hroom
    rw [List.foldl_cons]
    cases hkept : KeptRecord.of? record with
    | none =>
      rw [addNode_of_none hkept, List.filterMap_cons_none hkept]
      exact ih h (by omega)
    | some r =>
      obtain rfl := record_of_some hkept
      rw [List.filterMap_cons_some hkept, List.append_cons]
      refine ih (h.addNode (by omega) r) ?_
      rw [List.length_append, List.length_singleton]
      omega

/-- A number finds the node that it means. -/
theorem Holds.type?_eq (h : loading.Holds kept connections) (hroom : kept.length ≤ UInt32.size)
    {r : KeptRecord} {place : Nat} (hplace : kept[place]? = some r) :
    loading.graph.type? ⟨.ofNat place⟩ = some r.type := by
  have hlt : place < kept.length := (List.getElem?_eq_some_iff.1 hplace).1
  have hnode : loading.graph.node? ⟨.ofNat place⟩ = some (r.node place) := by
    rw [Graph.node?, h.nodes_eq, List.find?_eq_some_iff_getElem]
    refine ⟨by simp [KeptRecord.node], place, by simpa using hlt, ?_, fun j hj => ?_⟩
    · simp [(List.getElem?_eq_some_iff.1 hplace).2]
    · -- No earlier node has the same identity.
      have hne : (⟨.ofNat j⟩ : NodeId) ≠ ⟨.ofNat place⟩ := fun heq =>
        Nat.ne_of_lt hj ((ofNat_place_inj hroom (Nat.lt_trans hj hlt) hlt).1 heq)
      simpa [KeptRecord.node] using hne
  rw [Graph.type?, hnode]
  exact r.type_eq

/-! ## Connections -/

/-- Nodes that are meant can be connected exactly if the record gives a connection. -/
theorem Holds.connect_eq_ok_iff (h : loading.Holds kept connections)
    (hroom : kept.length ≤ UInt32.size) {record : ConnectionRecord} {source target : KeptRecord}
    {sourcePlace targetPlace : Nat}
    (hsource : meant? kept record.source = some (source, sourcePlace))
    (htarget : meant? kept record.target = some (target, targetPlace)) {connected : Graph} :
    loading.graph.connect ⟨.ofNat sourcePlace⟩ record.sourcePin ⟨.ofNat targetPlace⟩
        record.targetPin = .ok connected ↔
      ∃ c, connection? kept record = some c ∧ connected = { loading.graph with
        connections :=
          loading.graph.connections.filter (!·.enters c.target c.targetPin) ++ [c] } := by
  have hplace := getElem?_of_meant? hsource
  have hplace' := getElem?_of_meant? htarget
  have hids := ofNat_place_inj hroom (List.getElem?_eq_some_iff.1 hplace).1
    (List.getElem?_eq_some_iff.1 hplace').1
  rw [Graph.connect_eq_ok_iff]
  simp only [Graph.pinKind_output_iff (h.type?_eq hroom hplace),
    Graph.pinKind_input_iff (h.type?_eq hroom hplace'), ne_eq, hids, connection?_eq_some_iff,
    Option.map_eq_some_iff]
  constructor
  · rintro ⟨kind, hne, ⟨output, houtput, rfl⟩, ⟨input, hinput, hkind⟩, rfl⟩
    exact ⟨_, ⟨source, sourcePlace, target, targetPlace, output, input, hsource, htarget, houtput,
      hinput, hne, hkind.symm, rfl⟩, rfl⟩
  · rintro ⟨c, ⟨source', _, target', _, output, input, hsource', htarget', houtput, hinput, hne,
      hkind, rfl⟩, rfl⟩
    -- A number means one node.
    cases hsource.symm.trans hsource'
    cases htarget.symm.trans htarget'
    exact ⟨_, hne, ⟨output, houtput, rfl⟩, ⟨input, hinput, hkind.symm⟩, rfl⟩

/-- A record that gives no connection is left out. -/
theorem Holds.addConnection_of_none (h : loading.Holds kept connections)
    (hroom : kept.length ≤ UInt32.size) {record : ConnectionRecord}
    (hrecord : connection? kept record = none) :
    loading.addConnection record = loading := by
  unfold addConnection
  rw [h.lookup_eq, h.lookup_eq]
  cases hsource : meant? kept record.source with
  | none => rfl
  | some found =>
    cases htarget : meant? kept record.target with
    | none => rfl
    | some found' =>
      -- Both nodes are there, so it can only be the graph that refuses the connection.
      dsimp only [Option.map_some]
      cases hconnect : loading.graph.connect ⟨.ofNat found.2⟩ record.sourcePin ⟨.ofNat found'.2⟩
        record.targetPin with
      | error => rfl
      | ok connected =>
        obtain ⟨c, hc, -⟩ := (h.connect_eq_ok_iff hroom hsource htarget).1 hconnect
        cases hrecord.symm.trans hc

/-- Any other record gives a connection that drives out the one into its input pin. -/
theorem Holds.addConnection_of_some (h : loading.Holds kept connections)
    (hroom : kept.length ≤ UInt32.size) {record : ConnectionRecord} {c : Connection}
    (hrecord : connection? kept record = some c) :
    loading.addConnection record = { loading with graph := { loading.graph with
      connections :=
        loading.graph.connections.filter (!·.enters c.target c.targetPin) ++ [c] } } := by
  obtain ⟨source, sourcePlace, target, targetPlace, -, -, hsource, htarget, -⟩ :=
    connection?_eq_some_iff.1 hrecord
  have hconnect := (h.connect_eq_ok_iff hroom hsource htarget).2 ⟨c, hrecord, rfl⟩
  unfold addConnection
  rw [h.lookup_eq, h.lookup_eq, hsource, htarget]
  simp only [Option.map_some, hconnect]

/-- Making the recorded connections keeps those that can be made. -/
theorem Holds.foldl_addConnection {records : List ConnectionRecord}
    (h : loading.Holds kept connections) (hroom : kept.length ≤ UInt32.size) :
    (records.foldl Loading.addConnection loading).Holds kept
      (connections ++ records.filterMap (connection? kept)) := by
  induction records generalizing loading connections with
  | nil => simpa using h
  | cons record records ih =>
    rw [List.foldl_cons]
    cases hrecord : connection? kept record with
    | none =>
      rw [h.addConnection_of_none hroom hrecord, List.filterMap_cons_none hrecord]
      exact ih h
    | some c =>
      rw [h.addConnection_of_some hroom hrecord, List.filterMap_cons_some hrecord,
        List.append_cons connections]
      refine ih ⟨h.nodes_eq, ?_, h.nextIndex_eq, h.lookup_eq⟩
      rw [latest_concat, h.connections_eq]

end Loading

/-- The graph of a document, record by record. -/
theorem toGraph_eq {document : Document} (h : document.nodes.length ≤ UInt32.size) :
    document.toGraph =
      { nodes := document.kept.mapIdx fun place r => r.node place
        connections := latest (document.connections.filterMap (connection? document.kept))
        nextIndex := .ofNat document.kept.length } := by
  have hkept : document.kept.length ≤ UInt32.size :=
    Nat.le_trans (List.length_filterMap_le _ _) h
  have hplaced : (document.nodes.foldl Loading.addNode {}).Holds document.kept [] :=
    Loading.holds_nil.foldl_addNode (by simpa using h)
  have hloaded : (document.connections.foldl Loading.addConnection _).Holds document.kept
      (document.connections.filterMap (connection? document.kept)) :=
    hplaced.foldl_addConnection hkept
  rw [toGraph, ← hloaded.nodes_eq, ← hloaded.connections_eq, ← hloaded.nextIndex_eq]

/-- Loading takes over exactly what can be taken over. The nodes are the records of types that the
catalog has, in their order, each with its place as its identity and with the recorded values over
the defaults of its type. The connections are those that can be made, in their order, of which the
last one into each input pin stays. What kind a record claims for a connection does not count. -/
theorem toGraph_takes_over (document : Document) (h : document.nodes.length < UInt32.size) :
    document.toGraph.nodes = document.kept.mapIdx (fun place r => r.node place) ∧
    document.toGraph.connections =
      latest (document.connections.filterMap (connection? document.kept)) ∧
    document.toGraph.nextIndex = .ofNat document.kept.length ∧
    (∀ (r : KeptRecord) (place : Nat) (name : String), (r.node place).property? name =
      (r.record.data.find? name).or (r.type.defaults.find? name)) ∧
    ∀ (record : ConnectionRecord) (kind : String),
      connection? document.kept { record with kind } = connection? document.kept record := by
  rw [toGraph_eq (Nat.le_of_lt h)]
  exact ⟨rfl, rfl, rfl, fun r _ name => Dictionary.find?_overlay _ _ name, fun _ _ => rfl⟩

/-- A document with two nodes for one number and a node of no type. Its first connection gives way
to the fourth, the second one claims another kind, and the others cannot be made. -/
def crowded : Document where
  version := 1
  nodes := [⟨4, "chat_command", .zero, .zero, .empty⟩, ⟨9, "portal", .zero, .zero, .empty⟩,
    ⟨4, "say", .zero, .one, .empty⟩, ⟨7, "chat_command", .one, .zero, .empty⟩,
    ⟨2, "say", .one, .one, .ofList [("message", .string "hi"), ("colour", .null)]⟩]
  connections := [⟨7, "Exec", 2, "Exec", "exec"⟩, ⟨2, "Command", 4, "Message", "number"⟩,
    ⟨9, "Exec", 2, "Exec", "exec"⟩, ⟨4, "Exec", 2, "Exec", ""⟩, ⟨2, "Exec", 2, "Exec", "exec"⟩,
    ⟨7, "Exec", 2, "Message", "exec"⟩, ⟨7, "Then 0", 2, "Exec", "exec"⟩]

/-- Four nodes and two connections are taken over, and the later connection comes last. -/
theorem toGraph_takes_over_crowded :
    crowded.nodes.length < UInt32.size ∧
      crowded.toGraph.nodes.map (fun node => (node.id, node.tag, node.propertyText "message")) =
        [(⟨0⟩, "chat_command", ""), (⟨1⟩, "say", "Hello World!"), (⟨2⟩, "chat_command", ""),
          (⟨3⟩, "say", "hi")] ∧
      crowded.toGraph.connections =
        [⟨⟨3⟩, "Command", ⟨1⟩, "Message", .string⟩, ⟨⟨1⟩, "Exec", ⟨3⟩, "Exec", .exec⟩] := by
  have hlength : crowded.nodes.length < UInt32.size := by decide
  obtain ⟨hnodes, hconnections, -⟩ := toGraph_takes_over crowded hlength
  rw [hnodes, hconnections]
  exact ⟨hlength, by decide +kernel, by decide +kernel⟩

end Document

end CommandGraph
