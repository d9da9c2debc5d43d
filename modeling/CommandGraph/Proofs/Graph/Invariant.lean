import CommandGraph.Proofs.Graph.Session
import Mathlib.Data.List.Nodup
import Mathlib.Data.List.Pairwise

/-!
# Well-formed graphs

A graph is well formed (`Graph.WellFormed`) if its identities ascend and are all used up, every
connection joins two different nodes that are there, no input pin is entered twice, and the kind of
a connection can be read off the names of its pins. The last part survives a change of type tags:
among the standard types a pin's name alone tells whether control flows through it.

As long as no type tag is overwritten, a graph is also well typed (`Graph.WellTyped`): the catalog
has every node's type, and gives both pins of a connection its kind.

Both are kept by every step of an edit, provided the numbers of new nodes do not wrap around.
-/

namespace CommandGraph

/-! ## Pins of the standard types -/

namespace Catalog

/-- The names of the output pins through which control leaves. -/
def controlOutputs : List String :=
  ["Exec", "Then 0", "Then 1", "Then 2", "True", "False", "Loop Body", "Completed"]

/-- Control enters a standard type through the pin with this name, and through no other. -/
theorem exec_iff_of_mem_inputs :
    ∀ type ∈ standard.types, ∀ pin ∈ type.inputs, pin.kind = .exec ↔ pin.name = "Exec" := by
  decide

/-- Whether control leaves through an output pin of a standard type can be told by its name. -/
theorem exec_iff_of_mem_outputs :
    ∀ type ∈ standard.types, ∀ pin ∈ type.outputs,
      pin.kind = .exec ↔ pin.name ∈ controlOutputs := by
  decide

end Catalog

/-- The pins on a side. -/
def NodeType.pins (type : NodeType) : Side → List Pin
  | .input => type.inputs
  | .output => type.outputs

/-- No two pins on one side of a standard type have one name. -/
theorem Catalog.nodup_pins {type : NodeType} (h : type ∈ standard.types) (side : Side) :
    ((type.pins side).map (·.name)).Nodup := by
  have hinputs : ∀ type ∈ standard.types, (type.inputs.map (·.name)).Nodup := by decide
  have houtputs : ∀ type ∈ standard.types, (type.outputs.map (·.name)).Nodup := by decide
  cases side with
  | input => exact hinputs type h
  | output => exact houtputs type h

/-- Where the names differ, a search by name finds exactly the pin with the name. -/
theorem Pin.find?_eq_some_iff {pins : List Pin} (h : (pins.map (·.name)).Nodup) {name : String}
    {pin : Pin} : pins.find? (·.name == name) = some pin ↔ pin ∈ pins ∧ pin.name = name := by
  refine ⟨fun hfind => ⟨List.mem_of_find?_eq_some hfind, by simpa using List.find?_some hfind⟩, ?_⟩
  rintro ⟨hmem, rfl⟩
  have hsome : (pins.find? (·.name == pin.name)).isSome :=
    List.find?_isSome.2 ⟨pin, hmem, beq_self_eq_true pin.name⟩
  obtain ⟨found, hfound⟩ := Option.isSome_iff_exists.1 hsome
  have hname : found.name = pin.name := by simpa using List.find?_some hfound
  rw [hfound, List.inj_on_of_nodup_map h (List.mem_of_find?_eq_some hfound) hmem hname]

namespace Graph

/-! ## Look-ups -/

variable {g : Graph} {id : NodeId} {node : Node}

theorem length_ids (g : Graph) : g.ids.length = g.size :=
  List.length_map _

/-- What a look-up finds is a node with the identity. -/
theorem node?_eq_some (h : g.node? id = some node) : node ∈ g.nodes ∧ node.id = id :=
  ⟨List.mem_of_find?_eq_some h, by simpa using List.find?_some h⟩

/-- A look-up finds something exactly for the identities of the nodes. -/
theorem isSome_node?_iff : (g.node? id).isSome ↔ id ∈ g.ids := by
  simp [node?, ids]

/-- An identity that a look-up finds is one of the graph's. -/
theorem mem_ids_of_node? (h : g.node? id = some node) : id ∈ g.ids :=
  isSome_node?_iff.1 (by rw [h]; rfl)

/-- A node is found under every identity of the graph. -/
theorem exists_node?_of_mem_ids (h : id ∈ g.ids) : ∃ node, g.node? id = some node :=
  Option.isSome_iff_exists.1 (isSome_node?_iff.2 h)

/-- The tag of the node with an identity. -/
def tag? (g : Graph) (id : NodeId) : Option String :=
  (g.node? id).map (·.tag)

/-- The kind of a pin depends on nothing but the tag of its node. -/
theorem pinKind_eq_ok_of_tag? {g' : Graph} {id' : NodeId} (h : g'.tag? id' = g.tag? id)
    {side : Side} {pin : String} {kind : PinKind} (hkind : g.pinKind id side pin = .ok kind) :
    g'.pinKind id' side pin = .ok kind := by
  unfold pinKind pinKindOf at hkind ⊢
  unfold tag? at h
  cases hnode : g.node? id with
  | none => simp [hnode] at hkind
  | some node =>
    rw [hnode] at h hkind
    obtain ⟨node', hnode', htag⟩ := Option.map_eq_some_iff.1 h
    have htype : node'.type? = node.type? := congrArg Catalog.standard.find? htag
    rw [hnode']
    cases hfind : node.type? with
    | none => simp [hfind] at hkind
    | some type =>
      simp only [hfind] at hkind
      simp only [htype, hfind]
      -- Only refusals speak of the node, and there is none here.
      split at hkind
      next => cases hkind
      next => exact hkind

/-- A pin has a kind exactly if the node is there, the catalog has its type, and the type declares
the pin on this side with this kind. -/
theorem pinKind_eq_ok_iff {side : Side} {pin : String} {kind : PinKind} :
    g.pinKind id side pin = .ok kind ↔
      ∃ type, g.type? id = some type ∧ ∃ p ∈ type.pins side, p.name = pin ∧ p.kind = kind := by
  unfold pinKind pinKindOf type?
  cases g.node? id with
  | none => simp
  | some node =>
    cases htype : node.type? with
    | none => simp [htype]
    | some type =>
      -- No type has two pins of one name on a side, so the first one found is it.
      have hpins := Catalog.nodup_pins (Catalog.find?_eq_some htype).1 side
      have hfind : (∃ p ∈ type.pins side, p.name = pin ∧ p.kind = kind) ↔
          ∃ p, (type.pins side).find? (·.name == pin) = some p ∧ p.kind = kind := by
        simp only [Pin.find?_eq_some_iff hpins, and_assoc]
      simp only [htype, Option.bind_some, Option.some.injEq, exists_eq_left', hfind]
      cases side with
      | input =>
        change _ ↔ ∃ p, type.input? pin = some p ∧ p.kind = kind
        cases type.input? pin <;> simp
      | output =>
        change _ ↔ ∃ p, type.output? pin = some p ∧ p.kind = kind
        cases type.output? pin <;> simp

/-- A pin has a kind only at a node that is there and has a standard type with such a pin. -/
theorem pinKind_eq_ok {side : Side} {pin : String} {kind : PinKind}
    (h : g.pinKind id side pin = .ok kind) :
    id ∈ g.ids ∧ ∃ type ∈ Catalog.standard.types,
      ∃ p ∈ (match side with | .input => type.inputs | .output => type.outputs),
        p.name = pin ∧ p.kind = kind := by
  obtain ⟨type, htype, p, hp, hname, hkind⟩ := pinKind_eq_ok_iff.1 h
  obtain ⟨node, hnode, hfind⟩ := Option.bind_eq_some_iff.1 htype
  exact ⟨mem_ids_of_node? hnode, type, (Catalog.find?_eq_some hfind).1, p, hp, hname, hkind⟩

/-- Through an input pin flows control exactly if the pin has the one name for it. -/
theorem exec_iff_of_input {pin : String} {kind : PinKind} (h : g.pinKind id .input pin = .ok kind) :
    kind = .exec ↔ pin = "Exec" := by
  obtain ⟨-, type, htype, p, hp, rfl, rfl⟩ := pinKind_eq_ok h
  exact Catalog.exec_iff_of_mem_inputs type htype p hp

/-- Through an output pin flows control exactly if the pin has one of the names for it. -/
theorem exec_iff_of_output {pin : String} {kind : PinKind}
    (h : g.pinKind id .output pin = .ok kind) :
    kind = .exec ↔ pin ∈ Catalog.controlOutputs := by
  obtain ⟨-, type, htype, p, hp, rfl, rfl⟩ := pinKind_eq_ok h
  exact Catalog.exec_iff_of_mem_outputs type htype p hp

/-- If no two connections enter one input pin, none do after a connection has replaced the one into
its pin. -/
theorem pairwise_replace {connections : List Connection}
    (h : connections.Pairwise fun c d => ¬ (c.target = d.target ∧ c.targetPin = d.targetPin))
    (new : Connection) :
    (connections.filter (!·.enters new.target new.targetPin) ++ [new]).Pairwise fun c d =>
      ¬ (c.target = d.target ∧ c.targetPin = d.targetPin) := by
  refine List.pairwise_append.2 ⟨h.filter _, List.pairwise_singleton _ _, ?_⟩
  intro c hc d hd
  rw [List.mem_singleton.1 hd]
  rintro ⟨htarget, hpin⟩
  -- A connection into the same pin would have been filtered out.
  have hkept := (List.mem_filter.1 hc).2
  simp [Connection.enters, htarget, hpin] at hkept

/-! ## Well-formed graphs -/

/-- The nodes are numbered in their order, and the connections join them properly. -/
structure WellFormed (g : Graph) : Prop where
  /-- The identities ascend strictly. -/
  ids_ascend : g.ids.Pairwise fun a b => a.index < b.index
  /-- The next identity is beyond them. -/
  ids_below : ∀ id ∈ g.ids, id.index < g.nextIndex
  /-- Both ends of a connection are there. -/
  ends_mem : ∀ c ∈ g.connections, c.source ∈ g.ids ∧ c.target ∈ g.ids
  /-- The ends of a connection differ. -/
  ends_ne : ∀ c ∈ g.connections, c.source ≠ c.target
  /-- No two connections enter one input pin. -/
  single : g.connections.Pairwise fun c d => ¬ (c.target = d.target ∧ c.targetPin = d.targetPin)
  /-- Control flows through a connection exactly if it enters the pin for it. -/
  exec_iff_target : ∀ c ∈ g.connections, c.kind = .exec ↔ c.targetPin = "Exec"
  /-- Control flows through a connection exactly if it leaves one of the pins for it. -/
  exec_iff_source : ∀ c ∈ g.connections, c.kind = .exec ↔ c.sourcePin ∈ Catalog.controlOutputs

namespace WellFormed

/-- No identity occurs twice. -/
theorem nodup_ids (h : g.WellFormed) : g.ids.Nodup :=
  h.ids_ascend.imp fun {a b} hlt heq => by
    rw [heq] at hlt
    exact UInt32.lt_irrefl _ hlt

/-- No number occurs twice. -/
theorem nodup_indices (h : g.WellFormed) : (g.ids.map (·.index.toNat)).Nodup := by
  refine (List.nodup_map_iff_inj_on h.nodup_ids).2 ?_
  rintro ⟨a⟩ - ⟨b⟩ - hab
  exact congrArg NodeId.mk (UInt32.toNat_inj.1 hab)

/-- The numbers of the nodes are some of those before the next one. -/
theorem indices_subset (h : g.WellFormed) :
    g.ids.map (·.index.toNat) ⊆ List.range g.nextIndex.toNat := by
  refine List.forall_mem_map.2 fun id hid => List.mem_range.2 ?_
  exact UInt32.lt_iff_toNat_lt.1 (h.ids_below id hid)

/-- There are fewer nodes than numbers to identify them, since one number is left for the next
node. -/
theorem size_lt (h : g.WellFormed) : g.size < UInt32.size := by
  have hle := h.nodup_indices.length_le_of_subset h.indices_subset
  rw [List.length_map, length_ids, List.length_range] at hle
  exact Nat.lt_of_le_of_lt hle g.nextIndex.toNat_lt

/-- A look-up finds exactly the node with the identity. -/
theorem node?_eq_some_iff (h : g.WellFormed) :
    g.node? id = some node ↔ node ∈ g.nodes ∧ node.id = id := by
  refine ⟨node?_eq_some, ?_⟩
  rintro ⟨hmem, rfl⟩
  obtain ⟨found, hfound⟩ := exists_node?_of_mem_ids (List.mem_map_of_mem hmem)
  obtain ⟨hfoundMem, hid⟩ := node?_eq_some hfound
  rw [hfound, List.inj_on_of_nodup_map h.nodup_ids hfoundMem hmem hid]

/-- A connection is determined by the input pin that it enters. -/
theorem connection_eq (h : g.WellFormed) {c d : Connection} (hc : c ∈ g.connections)
    (hd : d ∈ g.connections) (htarget : c.target = d.target) (hpin : c.targetPin = d.targetPin) :
    c = d := by
  by_contra hne
  have hsymm : Std.Symm fun c d : Connection =>
      ¬ (c.target = d.target ∧ c.targetPin = d.targetPin) :=
    ⟨fun c d hcd hdc => hcd ⟨hdc.1.symm, hdc.2.symm⟩⟩
  exact h.single.forall hc hd hne ⟨htarget, hpin⟩

/-- Control enters a node through one connection at most. -/
theorem exec_connection_eq (h : g.WellFormed) {c d : Connection} (hc : c ∈ g.connections)
    (hd : d ∈ g.connections) (hcexec : c.kind = .exec) (hdexec : d.kind = .exec)
    (htarget : c.target = d.target) : c = d :=
  h.connection_eq hc hd htarget
    (((h.exec_iff_target c hc).1 hcexec).trans ((h.exec_iff_target d hd).1 hdexec).symm)

/-- Leaving connections out keeps a graph well formed. -/
theorem of_sublist (h : g.WellFormed) {connections : List Connection}
    (hsub : connections.Sublist g.connections) : WellFormed { g with connections } where
  ids_ascend := h.ids_ascend
  ids_below := h.ids_below
  ends_mem c hc := h.ends_mem c (hsub.subset hc)
  ends_ne c hc := h.ends_ne c (hsub.subset hc)
  single := h.single.sublist hsub
  exec_iff_target c hc := h.exec_iff_target c (hsub.subset hc)
  exec_iff_source c hc := h.exec_iff_source c (hsub.subset hc)

/-- The empty graph is well formed. -/
theorem empty : WellFormed .empty where
  ids_ascend := List.Pairwise.nil
  ids_below _ h := by cases h
  ends_mem _ h := by cases h
  ends_ne _ h := by cases h
  single := List.Pairwise.nil
  exec_iff_target _ h := by cases h
  exec_iff_source _ h := by cases h

/-- Placing a node keeps a graph well formed if there is a number left for the next one. -/
theorem place (h : g.WellFormed) (hid : node.id = ⟨g.nextIndex⟩)
    (hroom : g.nextIndex ≤ g.nextIndex + 1) :
    WellFormed { g with nodes := g.nodes ++ [node], nextIndex := g.nextIndex + 1 } := by
  -- The number for the next node does not wrap around.
  have hlt : g.nextIndex < g.nextIndex + 1 := by
    rw [UInt32.le_iff_toNat_le, UInt32.toNat_add] at hroom
    rw [UInt32.lt_iff_toNat_lt, UInt32.toNat_add]
    have := g.nextIndex.toNat_lt
    have hone : (1 : UInt32).toNat = 1 := rfl
    omega
  have hids : (g.nodes ++ [node]).map (·.id) = g.ids ++ [⟨g.nextIndex⟩] := by
    rw [List.map_append, List.map_singleton, hid, ids]
  have hmem : ∀ {i : NodeId}, i ∈ g.ids → i ∈ (g.nodes ++ [node]).map (·.id) := fun hi => by
    rw [hids]
    exact List.mem_append_left _ hi
  refine { h with ids_ascend := ?_, ids_below := ?_, ends_mem := ?_ }
  · rw [ids, hids]
    refine List.pairwise_append.2 ⟨h.ids_ascend, List.pairwise_singleton _ _, ?_⟩
    intro a ha b hb
    rw [List.mem_singleton.1 hb]
    exact h.ids_below a ha
  · intro i hi
    rw [ids, hids] at hi
    rcases List.mem_append.1 hi with hi | hi
    · exact UInt32.lt_trans (h.ids_below i hi) hlt
    · rw [List.mem_singleton.1 hi]
      exact hlt
  · intro c hc
    exact ⟨hmem (h.ends_mem c hc).1, hmem (h.ends_mem c hc).2⟩

/-- Removing a node with the connections at it keeps a graph well formed. -/
theorem remove (h : g.WellFormed) (id : NodeId) :
    WellFormed { g with
      nodes := g.nodes.filter (·.id != id)
      connections := g.connections.filter (!·.touches id) } := by
  have hsub : ((g.nodes.filter (·.id != id)).map (·.id)).Sublist g.ids :=
    List.filter_sublist.map _
  have hmem : ∀ {i : NodeId}, i ∈ g.ids → i ≠ id →
      i ∈ (g.nodes.filter (·.id != id)).map (·.id) := by
    intro i hi hne
    obtain ⟨node, hnode, rfl⟩ := List.mem_map.1 hi
    exact List.mem_map_of_mem (List.mem_filter.2 ⟨hnode, by simpa using hne⟩)
  -- Only what says that something is there has to be shown again.
  refine { h.of_sublist List.filter_sublist with ids_ascend := ?_, ids_below := ?_, ends_mem := ?_ }
  · exact h.ids_ascend.sublist hsub
  · exact fun i hi => h.ids_below i (hsub.subset hi)
  · intro c hc
    obtain ⟨hc, htouches⟩ := List.mem_filter.1 hc
    have hne : c.source ≠ id ∧ c.target ≠ id := by simpa [Connection.touches] using htouches
    exact ⟨hmem (h.ends_mem c hc).1 hne.1, hmem (h.ends_mem c hc).2 hne.2⟩

/-- Making a connection that replaces the one into its input pin keeps a graph well formed. -/
theorem connect (h : g.WellFormed) {source target : NodeId} {sourcePin targetPin : String}
    {kind : PinKind} (hne : source ≠ target)
    (hsource : g.pinKind source .output sourcePin = .ok kind)
    (htarget : g.pinKind target .input targetPin = .ok kind) :
    WellFormed { g with
      connections := g.connections.filter (!·.enters target targetPin) ++
        [{ source, sourcePin, target, targetPin, kind }] } := by
  have hsub : (g.connections.filter (!·.enters target targetPin)).Sublist g.connections :=
    List.filter_sublist
  have hold := h.of_sublist hsub
  refine ⟨h.ids_ascend, h.ids_below, ?_, ?_, ?_, ?_, ?_⟩
  · refine List.forall_mem_append.2 ⟨hold.ends_mem, List.forall_mem_singleton.2 ?_⟩
    exact ⟨(pinKind_eq_ok hsource).1, (pinKind_eq_ok htarget).1⟩
  · exact List.forall_mem_append.2 ⟨hold.ends_ne, List.forall_mem_singleton.2 hne⟩
  · exact pairwise_replace h.single { source, sourcePin, target, targetPin, kind }
  · refine List.forall_mem_append.2 ⟨hold.exec_iff_target, List.forall_mem_singleton.2 ?_⟩
    exact exec_iff_of_input htarget
  · refine List.forall_mem_append.2 ⟨hold.exec_iff_source, List.forall_mem_singleton.2 ?_⟩
    exact exec_iff_of_output hsource

/-- Changing nodes without their identities keeps a graph well formed. -/
theorem map_nodes (h : g.WellFormed) {change : Node → Node}
    (hid : ∀ node, (change node).id = node.id) :
    WellFormed { g with nodes := g.nodes.map change } := by
  have hids : (g.nodes.map change).map (·.id) = g.ids := by
    rw [List.map_map, ids]
    exact List.map_congr_left fun node _ => hid node
  refine { h with ids_ascend := ?_, ids_below := ?_, ends_mem := ?_ }
  · rw [ids, hids]
    exact h.ids_ascend
  · rw [ids, hids]
    exact h.ids_below
  · rw [ids, hids]
    exact h.ends_mem

/-- Every step of an edit keeps a graph well formed, unless the numbers wrap around. -/
theorem step (h : g.WellFormed) {e : Edit} {g' : Graph} (hs : e.Step g g')
    (hroom : g.nextIndex ≤ g'.nextIndex) : g'.WellFormed := by
  cases hs with
  | refused => exact h
  | place htype position => exact h.place rfl hroom
  | remove id => exact h.remove id
  | alter => exact h.map_nodes fun node => e.id_alter node
  | connect hne hsource htarget => exact h.connect hne hsource htarget
  | disconnect id pin => exact h.of_sublist List.eraseP_sublist

end WellFormed

/-! ## Well-typed graphs -/

/-- The catalog has the type of every node, and both pins of a connection are of its kind. -/
structure WellTyped (g : Graph) : Prop where
  /-- Every node has a standard type. -/
  typed : ∀ node ∈ g.nodes, ∃ type, node.type? = some type
  /-- The pin that a connection leaves is of its kind. -/
  output_kind : ∀ c ∈ g.connections, g.pinKind c.source .output c.sourcePin = .ok c.kind
  /-- The pin that a connection enters is of its kind. -/
  input_kind : ∀ c ∈ g.connections, g.pinKind c.target .input c.targetPin = .ok c.kind

/-- Nodes placed later do not change which tag is found. -/
theorem tag?_append (hid : id ∈ g.ids) (more : List Node) (nextIndex : UInt32) :
    tag? { g with nodes := g.nodes ++ more, nextIndex } id = g.tag? id := by
  obtain ⟨node, hnode⟩ := exists_node?_of_mem_ids hid
  unfold node? at hnode
  rw [tag?, tag?, node?, node?, List.find?_append, hnode, Option.some_or]

/-- The removal of another node does not change which tag is found. -/
theorem tag?_filter {removed : NodeId} (hne : id ≠ removed) (connections : List Connection) :
    tag? { g with nodes := g.nodes.filter (·.id != removed), connections } id = g.tag? id := by
  rw [tag?, tag?, node?, node?, List.find?_filter]
  congr 2
  funext node
  by_cases h : node.id = id <;> simp [h, hne]

/-- A look-up among changed nodes finds the changed node. -/
theorem node?_map {change : Node → Node} (hid : ∀ node, (change node).id = node.id) (id : NodeId) :
    node? { g with nodes := g.nodes.map change } id = (g.node? id).map change := by
  rw [node?, node?, List.find?_map]
  congr 2
  funext node
  rw [Function.comp_apply, hid]

namespace WellTyped

/-- The empty graph is well typed. -/
theorem empty : WellTyped .empty where
  typed _ h := by cases h
  output_kind _ h := by cases h
  input_kind _ h := by cases h

/-- A graph whose connections all were in a well-typed one, and at whose ends the same tags are
found, is well typed if its nodes have standard types. -/
theorem of_tag? (h : g.WellTyped) {g' : Graph}
    (htyped : ∀ node ∈ g'.nodes, ∃ type, node.type? = some type)
    (hsub : ∀ c ∈ g'.connections, c ∈ g.connections ∧ g'.tag? c.source = g.tag? c.source ∧
      g'.tag? c.target = g.tag? c.target) : g'.WellTyped where
  typed := htyped
  output_kind c hc := pinKind_eq_ok_of_tag? (hsub c hc).2.1 (h.output_kind c (hsub c hc).1)
  input_kind c hc := pinKind_eq_ok_of_tag? (hsub c hc).2.2 (h.input_kind c (hsub c hc).1)

/-- Every step of an edit that leaves the type tags alone keeps a graph well typed. -/
theorem step (h : g.WellTyped) (hwf : g.WellFormed) {e : Edit} (he : e.isRetype = false)
    {g' : Graph} (hs : e.Step g g') : g'.WellTyped := by
  cases hs with
  | refused => exact h
  | place htype position =>
    refine h.of_tag? ?_ fun c hc => ⟨hc, tag?_append (hwf.ends_mem c hc).1 _ _,
      tag?_append (hwf.ends_mem c hc).2 _ _⟩
    intro node hnode
    rcases List.mem_append.1 hnode with hnode | hnode
    · exact h.typed node hnode
    · rw [List.mem_singleton.1 hnode]
      exact ⟨_, htype⟩
  | remove id =>
    refine h.of_tag? (fun node hnode => h.typed node (List.mem_filter.1 hnode).1) fun c hc => ?_
    obtain ⟨hc, htouches⟩ := List.mem_filter.1 hc
    have hne : c.source ≠ id ∧ c.target ≠ id := by simpa [Connection.touches] using htouches
    exact ⟨hc, tag?_filter hne.1 _, tag?_filter hne.2 _⟩
  | alter =>
    -- All type tags stay, and with them the kinds of all pins.
    have htag : ∀ i, tag? { g with nodes := g.nodes.map (e.alter ·) } i = g.tag? i := by
      intro i
      rw [tag?, tag?, node?_map (fun node => e.id_alter node), Option.map_map]
      congr 1
      funext node
      exact e.tag_alter node he
    refine h.of_tag? ?_ fun c hc => ⟨hc, htag _, htag _⟩
    intro node hnode
    obtain ⟨old, hold, rfl⟩ := List.mem_map.1 hnode
    rw [Node.type?, e.tag_alter old he]
    exact h.typed old hold
  | connect hne hsource htarget =>
    refine ⟨h.typed, ?_, ?_⟩
    · refine List.forall_mem_append.2 ⟨fun c hc => ?_, List.forall_mem_singleton.2 hsource⟩
      exact h.output_kind c (List.mem_filter.1 hc).1
    · refine List.forall_mem_append.2 ⟨fun c hc => ?_, List.forall_mem_singleton.2 htarget⟩
      exact h.input_kind c (List.mem_filter.1 hc).1
  | disconnect id pin =>
    exact h.of_tag? h.typed fun c hc => ⟨List.eraseP_sublist.subset hc, rfl, rfl⟩

end WellTyped

end Graph

end CommandGraph
