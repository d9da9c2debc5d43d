import CommandGraph.Proofs.Graph.Reachable

/-!
# Consistency of edited graphs

The identities of removed nodes never come back, and a node keeps every property that its type
declares until the property is taken away behind the back of the graph's own operations. Together
with the invariants of `CommandGraph.Proofs.Graph.Reachable` this is all that is known of the stores
that edits without a loading leave (`Arena.consistent_run`). That the table and the list of the
identities agree, and that a node is stored under its own identity, are facts about these stores
alone: in a graph the nodes are one list.
-/

namespace CommandGraph

/-! ## Identities are not reused -/

namespace Edit.Step

variable {e : Edit} {g g' : Graph}

/-- A step gives the graph at most one new identity, the next one. -/
theorem mem_ids (hs : e.Step g g') {id : NodeId} (h : id ∈ g'.ids) :
    id ∈ g.ids ∨ id = ⟨g.nextIndex⟩ := by
  cases hs with
  | refused => exact .inl h
  | place htype position => simpa [Graph.ids, NodeType.newNode] using h
  | remove removed => exact .inl ((List.filter_sublist.map _).subset h)
  | alter =>
    left
    have hids : (g.nodes.map (e.alter ·)).map (·.id) = g.ids := by
      rw [List.map_map, Graph.ids]
      exact List.map_congr_left fun node _ => e.id_alter node
    rw [Graph.ids, hids] at h
    exact h
  | connect hne hsource htarget => exact .inl h
  | disconnect id pin => exact .inl h

end Edit.Step

namespace Session

/-- The number for the next node does not fall along a session without loadings. -/
theorem nextIndex_le_run {edits more : List Edit}
    (hload : ∀ e ∈ edits ++ more, e.isLoad = false)
    (hplaced : (run (edits ++ more)).placed < UInt32.size) :
    (run edits).graph.nextIndex ≤ (run (edits ++ more)).graph.nextIndex := by
  induction more using List.reverseRecOn with
  | nil => simp
  | append_singleton more e ih =>
    rw [← List.append_assoc] at hload hplaced ⊢
    obtain ⟨hbefore, he⟩ := List.forall_mem_append.1 hload
    have hlast := he e (List.mem_singleton_self e)
    rw [run_concat] at hplaced ⊢
    have hle := (run (edits ++ more)).placed_le_placedAfter hlast
    exact UInt32.le_trans (ih hbefore (Nat.lt_of_le_of_lt hle hplaced))
      ((run (edits ++ more)).nextIndex_le_apply (nextIndex_run hbefore) hlast hplaced)

/-- An identity that was below the next one at some time and is there later was there all along. -/
theorem mem_ids_of_lt_nextIndex {edits more : List Edit}
    (hload : ∀ e ∈ edits ++ more, e.isLoad = false)
    (hplaced : (run (edits ++ more)).placed < UInt32.size) {id : NodeId}
    (hlt : id.index < (run edits).graph.nextIndex) (hmem : id ∈ (run (edits ++ more)).graph.ids) :
    id ∈ (run edits).graph.ids := by
  induction more using List.reverseRecOn with
  | nil => rwa [List.append_nil] at hmem
  | append_singleton more e ih =>
    rw [← List.append_assoc] at hload hplaced hmem
    obtain ⟨hbefore, he⟩ := List.forall_mem_append.1 hload
    have hlast := he e (List.mem_singleton_self e)
    rw [run_concat] at hplaced hmem
    have hplacedBefore := Nat.lt_of_le_of_lt
      ((run (edits ++ more)).placed_le_placedAfter hlast) hplaced
    rcases (e.step_apply (run (edits ++ more)).graph hlast).mem_ids hmem with hold | hnew
    · exact ih hbefore hplacedBefore hold
    · -- The new identity is not below any earlier next one.
      rw [hnew] at hlt
      exact absurd (UInt32.lt_of_lt_of_le hlt (nextIndex_le_run hbefore hplacedBefore))
        (UInt32.lt_irrefl _)

/-- An identity that was there and is gone does not come back. -/
theorem notMem_ids_of_gone {earlier between after : List Edit}
    (hload : ∀ e ∈ earlier ++ between ++ after, e.isLoad = false)
    (hplaced : (run (earlier ++ between ++ after)).placed < UInt32.size) {id : NodeId}
    (hearlier : id ∈ (run earlier).graph.ids) (hlater : id ∉ (run (earlier ++ between)).graph.ids) :
    id ∉ (run (earlier ++ between ++ after)).graph.ids := by
  have hplacedLater := Nat.lt_of_le_of_lt (placed_le_run hload) hplaced
  have hloadLater := (List.forall_mem_append.1 hload).1
  have hplacedEarlier := Nat.lt_of_le_of_lt (placed_le_run hloadLater) hplacedLater
  refine fun hend => hlater (mem_ids_of_lt_nextIndex hload hplaced ?_ hend)
  exact UInt32.lt_of_lt_of_le ((wellFormed_run hplacedEarlier).ids_below id hearlier)
    (nextIndex_le_run hloadLater hplacedLater)

end Session

/-! ## Control enters once -/

/-- Control enters each node of a well-formed graph through one connection at most. -/
theorem Graph.WellFormed.length_execInbound_le_one {g : Graph} (h : g.WellFormed) (id : NodeId) :
    (g.connections.filter fun c => c.target == id && c.isExec).length ≤ 1 := by
  have hpin : ∀ c ∈ g.connections.filter (fun c => c.target == id && c.isExec),
      c.target = id ∧ c.targetPin = "Exec" := by
    intro c hc
    obtain ⟨hc, hfilter⟩ := List.mem_filter.1 hc
    have hboth : c.target = id ∧ c.kind = .exec := by
      simpa [Connection.isExec, PinKind.isExec] using hfilter
    exact ⟨hboth.1, (h.exec_iff_target c hc).1 hboth.2⟩
  have hsingle := h.single.filter (fun c => c.target == id && c.isExec)
  -- Two of them would enter the same pin.
  cases hlist : g.connections.filter (fun c => c.target == id && c.isExec) with
  | nil => simp
  | cons c rest =>
    cases rest with
    | nil => simp
    | cons d rest =>
      rw [hlist] at hpin hsingle
      have hc := hpin c (by simp)
      have hd := hpin d (by simp)
      refine absurd ?_ ((List.pairwise_cons.1 hsingle).1 d (by simp))
      exact ⟨hc.1.trans hd.1.symm, hc.2.trans hd.2.symm⟩

/-! ## Declared properties stay -/

/-- A new node has a value for every property that its type declares. -/
theorem NodeType.isSome_find?_defaults {type : NodeType} {property : Property}
    (h : property ∈ type.properties) : (type.defaults.find? property.name).isSome :=
  Dictionary.isSome_find?_ofList_iff.2 (List.mem_map_of_mem (List.mem_map_of_mem h))

/-- A property of a node goes only by a direct change of its property values. -/
theorem Edit.isSome_property?_alter {node : Node} {name : String}
    (h : (node.property? name).isSome) (e : Edit) :
    ((e.alter node).property? name).isSome ∨
      ∃ change, e = .rewrite node.id change ∧ (change node.properties).find? name = none := by
  cases e with
  | set id key value =>
    left
    rw [alter]
    split
    · rw [Node.property?, Dictionary.find?_insert]
      split
      · rfl
      · exact h
    · exact h
  | rewrite id change =>
    rw [alter]
    split
    next heq =>
      cases hfind : (change node.properties).find? name with
      | none => exact .inr ⟨change, by rw [heq], hfind⟩
      | some value =>
        left
        rw [Node.property?, hfind]
        rfl
    next => exact .inl h
  | move id position =>
    left
    rw [alter]
    split <;> exact h
  | retype id tag =>
    left
    rw [alter]
    split <;> exact h
  | _ => exact .inl h

namespace Session

/-- At some point of a session a property of a node was there and a direct change of the node's
property values took it away. -/
def Removes (edits : List Edit) (id : NodeId) (name : String) : Prop :=
  ∃ before change after node, edits = before ++ .rewrite id change :: after ∧
    (Arena.run before).node? id = some node ∧ (node.property? name).isSome ∧
    (change node.properties).find? name = none

/-- What an edit of a session removed stays removed in the session's history. -/
theorem Removes.concat {edits : List Edit} {id : NodeId} {name : String}
    (h : Removes edits id name) (e : Edit) : Removes (edits ++ [e]) id name := by
  obtain ⟨before, change, after, node, rfl, hrest⟩ := h
  refine ⟨before, change, after ++ [e], node, ?_, hrest⟩
  rw [List.append_assoc, List.cons_append]

/-- A node has every property that its type declares, unless a direct change removed it. -/
theorem isSome_property?_run {edits : List Edit} (hload : ∀ e ∈ edits, e.isLoad = false)
    (hretype : ∀ e ∈ edits, e.isRetype = false) (hplaced : (run edits).placed < UInt32.size)
    {node : Node} (hnode : node ∈ (run edits).graph.nodes) {type : NodeType}
    (htype : node.type? = some type) {property : Property} (hprop : property ∈ type.properties) :
    (node.property? property.name).isSome ∨ Removes edits node.id property.name := by
  induction edits using List.reverseRecOn generalizing node with
  | nil => cases hnode
  | append_singleton edits e ih =>
    obtain ⟨hloadBefore, hloadLast⟩ := List.forall_mem_append.1 hload
    obtain ⟨hretypeBefore, hretypeLast⟩ := List.forall_mem_append.1 hretype
    replace hloadLast := hloadLast e (List.mem_singleton_self e)
    replace hretypeLast := hretypeLast e (List.mem_singleton_self e)
    rw [run_concat] at hplaced hnode
    replace hplaced := Nat.lt_of_le_of_lt ((run edits).placed_le_placedAfter hloadLast) hplaced
    have hkept : node ∈ (run edits).graph.nodes →
        (node.property? property.name).isSome ∨
          Removes (edits ++ [e]) node.id property.name := fun hmem =>
      (ih hloadBefore hretypeBefore hplaced hmem htype).imp_right fun h => h.concat e
    have hs := e.step_apply (run edits).graph hloadLast
    change node ∈ (e.apply (run edits).graph).nodes at hnode
    generalize hg : e.apply (run edits).graph = g' at hs hnode
    cases hs with
    | refused => exact hkept hnode
    | @place newType hnew position =>
      rcases List.mem_append.1 hnode with hold | hlast
      · exact hkept hold
      · left
        rw [List.mem_singleton.1 hlast] at htype ⊢
        obtain rfl : newType = type := Option.some.inj (hnew.symm.trans htype)
        exact NodeType.isSome_find?_defaults hprop
    | remove id => exact hkept (List.mem_filter.1 hnode).1
    | alter =>
      obtain ⟨old, hold, rfl⟩ := List.mem_map.1 hnode
      rw [Node.type?, e.tag_alter old hretypeLast] at htype
      rw [e.id_alter old]
      rcases ih hloadBefore hretypeBefore hplaced hold htype with hsome | hremoved
      · refine (e.isSome_property?_alter hsome).imp_right ?_
        -- The property goes with this edit, so the edit is the removal that is asked for.
        rintro ⟨change, rfl, hnone⟩
        have hfind : (Arena.run edits).node? old.id = some old := by
          obtain ⟨hcoupled, hgraph⟩ := Arena.graph_run hplaced
          rw [← hcoupled.node?_graph, hgraph]
          exact (wellFormed_run hplaced).node?_eq_some_iff.2 ⟨hold, rfl⟩
        exact ⟨edits, change, [], old, rfl, hfind, hsome, hnone⟩
      · exact .inr (hremoved.concat e)
    | connect hne hsource htarget => exact hkept hnode
    | disconnect id pin => exact hkept hnode

/-- A node is driven, removed and followed by another one, and a property is taken away. -/
def replacement : List Edit :=
  [.add "chat_command" {}, .add "say" {}, .add "say" {}, .connect ⟨0⟩ "Exec" ⟨1⟩ "Exec",
    .connect ⟨0⟩ "Exec" ⟨2⟩ "Exec", .remove ⟨1⟩, .add "loop" {}, .connect ⟨2⟩ "Exec" ⟨3⟩ "Exec",
    .rewrite ⟨2⟩ (·.erase "message")]

end Session

/-! ## The stores -/

namespace Arena

/-- The order lists the identities of the graph that the session reaches. -/
theorem order_run {edits : List Edit} (hplaced : (Session.run edits).placed < UInt32.size) :
    (run edits).order = (Session.run edits).graph.ids := by
  obtain ⟨hcoupled, hgraph⟩ := graph_run hplaced
  rw [← hgraph, hcoupled.ids_graph]

/-- What holds of the stores after edits without a loading. The listed identities ascend, are the
keys of the table, lie below the next one, and are never reused; each node is stored under its own
identity. Connections join different listed nodes, at most one enters an input pin, and control
flows through those that enter a pin `Exec`, so at most one per node. If no type tag was
overwritten, the catalog also gives both pins of a connection its kind, and a stored node has every
property that its type declares unless a direct change removed it. The graph in the stores is the
one that the session reaches. -/
theorem consistent_run (edits : List Edit) (hload : ∀ e ∈ edits, e.isLoad = false)
    (hplaced : (Session.run edits).placed < UInt32.size) :
    let a := run edits
    (a.order.Pairwise fun x y => x.index < y.index) ∧
    (∀ id, id ∈ a.order ↔ id.index ∈ a.table) ∧
    (∀ id ∈ a.order, id.index < a.nextIndex) ∧
    (∀ (index : UInt32) (node : Node), a.table[index]? = some node → node.id = ⟨index⟩) ∧
    (∀ earlier later : List Edit, earlier <+: later → later <+: edits →
      ∀ id ∈ (run earlier).order, id ∉ (run later).order → id ∉ a.order) ∧
    (∀ c ∈ a.connections, c.source ∈ a.order ∧ c.target ∈ a.order ∧ c.source ≠ c.target) ∧
    (a.connections.Pairwise fun c d => ¬ (c.target = d.target ∧ c.targetPin = d.targetPin)) ∧
    (∀ c ∈ a.connections, c.kind = .exec ↔ c.targetPin = "Exec") ∧
    (∀ id, (a.connections.filter fun c => c.target == id && c.isExec).length ≤ 1) ∧
    ((∀ e ∈ edits, e.isRetype = false) →
      (∀ c ∈ a.connections, a.pinKind c.source .output c.sourcePin = .ok c.kind ∧
        a.pinKind c.target .input c.targetPin = .ok c.kind) ∧
      ∀ (index : UInt32) (node : Node), a.table[index]? = some node →
        ∃ type, node.type? = some type ∧ ∀ property ∈ type.properties,
          (node.property? property.name).isSome ∨ Session.Removes edits node.id property.name) ∧
    a.graph = (Session.run edits).graph := by
  intro a
  obtain ⟨hcoupled, hgraph⟩ := graph_run hplaced
  have hwf := Session.wellFormed_run hplaced
  -- Everything but the table is the same in the stores as in the graph.
  have hids : a.order = (Session.run edits).graph.ids := order_run hplaced
  have hconnections : a.connections = (Session.run edits).graph.connections :=
    congrArg Graph.connections hgraph
  have hnext : a.nextIndex = (Session.run edits).graph.nextIndex := congrArg Graph.nextIndex hgraph
  rw [hids, hconnections, hnext]
  refine ⟨hwf.ids_ascend, fun id => ?_, hwf.ids_below, fun index node => hcoupled.id_eq, ?_,
    fun c hc => ⟨(hwf.ends_mem c hc).1, (hwf.ends_mem c hc).2, hwf.ends_ne c hc⟩, hwf.single,
    hwf.exec_iff_target, hwf.length_execInbound_le_one, fun hretype => ⟨fun c hc => ?_, ?_⟩, hgraph⟩
  · rw [← hids, hcoupled.mem_order_iff, Std.TreeMap.mem_iff_isSome_getElem?]
    rfl
  -- Fewer nodes have been placed by then, so the bound holds there as well.
  · rintro earlier later ⟨between, rfl⟩ ⟨after, rfl⟩ id hearlier hlater
    have hplacedLater := Nat.lt_of_le_of_lt (Session.placed_le_run hload) hplaced
    have hloadLater := (List.forall_mem_append.1 hload).1
    rw [order_run (Nat.lt_of_le_of_lt (Session.placed_le_run hloadLater) hplacedLater)] at hearlier
    rw [order_run hplacedLater] at hlater
    exact Session.notMem_ids_of_gone hload hplaced hearlier hlater
  · have htyped := Session.wellTyped_run hretype hplaced
    rw [← hcoupled.pinKind_graph, ← hcoupled.pinKind_graph, hgraph]
    exact ⟨htyped.output_kind c hc, htyped.input_kind c hc⟩
  · intro index node hnode
    -- A stored node is one of the graph, where its type and its properties are known.
    have hfound : (Session.run edits).graph.node? ⟨index⟩ = some node := by
      rw [← hgraph, hcoupled.node?_graph]
      exact hnode
    have hmem := (Graph.node?_eq_some hfound).1
    obtain ⟨type, htype⟩ := (Session.wellTyped_run hretype hplaced).typed node hmem
    exact ⟨type, htype, fun property hprop =>
      Session.isSome_property?_run hload hretype hplaced hmem htype hprop⟩

/-- The identity of the removed node does not come back, and both connections that stay are between
pins of their kind. -/
theorem consistent_run_replacement :
    let a := run Session.replacement
    (∀ e ∈ Session.replacement, e.isLoad = false) ∧
      (Session.run Session.replacement).placed < UInt32.size ∧
      (∀ e ∈ Session.replacement, e.isRetype = false) ∧
      a.connections.length = 2 ∧ ⟨1⟩ ∉ a.order ∧ (1 : UInt32) ∉ a.table ∧
      (∀ c ∈ a.connections, a.pinKind c.source .output c.sourcePin = .ok c.kind ∧
        a.pinKind c.target .input c.targetPin = .ok c.kind) ∧
      ∀ (index : UInt32) (node : Node), a.table[index]? = some node →
        ∃ type, node.type? = some type ∧ ∀ property ∈ type.properties,
          (node.property? property.name).isSome ∨
            Session.Removes Session.replacement node.id property.name := by
  intro a
  have hload : ∀ e ∈ Session.replacement, e.isLoad = false := by decide
  have hplaced : (Session.run Session.replacement).placed < UInt32.size := by decide
  have hretype : ∀ e ∈ Session.replacement, e.isRetype = false := by decide
  obtain ⟨-, hkeys, -, -, hreused, -, -, -, -, htyped, -⟩ :=
    consistent_run Session.replacement hload hplaced
  obtain ⟨hkinds, hproperties⟩ := htyped hretype
  have hgone : ⟨1⟩ ∉ a.order := by
    refine hreused (Session.replacement.take 2) (Session.replacement.take 6) ?_
      (List.take_prefix 6 _) ⟨1⟩ (by decide) (by decide)
    exact List.take_prefix_take_left (by decide)
  exact ⟨hload, hplaced, hretype, by decide, hgone, fun hmem => hgone ((hkeys ⟨1⟩).2 hmem), hkinds,
    hproperties⟩

end Arena

end CommandGraph
