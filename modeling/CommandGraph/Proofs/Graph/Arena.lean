import CommandGraph.Proofs.Graph.Invariant

/-!
# Graphs in their stores

What an arena keeps is coupled (`Arena.Coupled`) if the table has a node exactly for the listed
identities, and has it under the node's own identity. Then looking a node up in the table is looking
it up in the graph, and an operation on the stores does what the operation on the graph does
(`Arena.Refines`): it is refused for the same cause and has changed nothing until then, or it leaves
coupled stores of the new graph. Placing a node takes a number that is not yet in use.

What one edit does to the stores follows from this (`Arena.Coupled.perform`). For whole sessions see
`Arena.graph_run`.
-/

namespace CommandGraph

/-- An identity is its number. -/
theorem NodeId.index_inj {id other : NodeId} : id.index = other.index ↔ id = other :=
  ⟨fun h => congrArg NodeId.mk h, fun h => congrArg NodeId.index h⟩

/-! ## What the operations leave -/

namespace Editing

variable {α β : Type} (a : Arena)

theorem run_get_bind (f : Arena → Editing α) : (get >>= f).run.run a = (f a).run.run a :=
  rfl

/-- A check that fails leaves the arena as it was, and one that succeeds too. -/
theorem run_ofExcept_bind (x : Except GraphError α) (f : α → Editing β) :
    (MonadExcept.ofExcept x >>= f).run.run a =
      match x with
      | .error e => (.error e, a)
      | .ok value => (f value).run.run a := by
  cases x <;> rfl

end Editing

namespace Arena

theorem run_get_bind {α : Type} (f : Arena → StateM Arena α) (a : Arena) :
    (get >>= f).run a = (f a).run a :=
  rfl

/-- Placing a node changes table, order and next number, or nothing if there is no such type. -/
theorem run_addNode (tag : String) (position : Position) (a : Arena) :
    (addNode tag position).run.run a =
      match Catalog.standard.find? tag with
      | none => (.error (.unknownType tag), a)
      | some type => (.ok ⟨a.nextIndex⟩, { a with
          table := a.table.insert a.nextIndex (type.newNode ⟨a.nextIndex⟩ position)
          order := a.order ++ [⟨a.nextIndex⟩]
          nextIndex := a.nextIndex + 1 }) := by
  unfold addNode
  cases Catalog.standard.find? tag <;> rfl

/-- Changing a node changes its entry of the table, or nothing if it is not there. -/
theorem run_editNode (id : NodeId) (change : Node → Node) (a : Arena) :
    (editNode id change).run.run a =
      match a.node? id with
      | none => (.error (.nodeNotFound id), a)
      | some node => (.ok (), { a with table := a.table.insert id.index (change node) }) := by
  rw [editNode, Editing.run_get_bind]
  cases a.node? id <;> rfl

/-- Removing a node changes table, order and connections, or nothing if it is not there. -/
theorem run_removeNode? (id : NodeId) (a : Arena) :
    (removeNode? id).run a =
      match a.node? id with
      | none => (none, a)
      | some node => (some node, { a with
          table := a.table.erase id.index
          order := a.order.filter (· != id)
          connections := a.connections.filter (!·.touches id) }) := by
  rw [removeNode?, run_get_bind]
  cases a.node? id <;> rfl

/-- Disconnecting changes the connections, or nothing if the pin has none. -/
theorem run_disconnect? (id : NodeId) (pin : String) (a : Arena) :
    (disconnect? id pin).run a =
      match a.inbound? id pin with
      | none => (none, a)
      | some c => (some c, { a with connections := a.connections.eraseP (·.enters id pin) }) := by
  rw [disconnect?, run_get_bind]
  cases a.inbound? id pin <;> rfl

/-- Connecting makes all its checks on the stores as they were found. -/
theorem run_connect (source : NodeId) (sourcePin : String) (target : NodeId) (targetPin : String)
    (a : Arena) : (connect source sourcePin target targetPin).run.run a =
      if source = target then (.error (.selfConnection source), a)
      else match a.pinKind source .output sourcePin with
        | .error e => (.error e, a)
        | .ok kind =>
          match a.pinKind target .input targetPin with
          | .error e => (.error e, a)
          | .ok targetKind =>
            if kind ≠ targetKind then (.error (.kindMismatch kind targetKind), a)
            else (.ok (), { a with
              connections := a.connections.filter (!·.enters target targetPin) ++
                [{ source, sourcePin, target, targetPin, kind }] }) := by
  unfold connect
  by_cases hself : source = target
  · rw [if_pos hself, if_pos hself]
    rfl
  -- Reading the stores and checking a pin change nothing, so the second check sees the same.
  · rw [if_neg hself, if_neg hself, Editing.run_get_bind, Editing.run_ofExcept_bind]
    cases a.pinKind source .output sourcePin with
    | error e => rfl
    | ok kind =>
      dsimp only
      rw [Editing.run_get_bind, Editing.run_ofExcept_bind]
      cases a.pinKind target .input targetPin with
      | error e => rfl
      | ok targetKind =>
        dsimp only
        split <;> rfl

/-- A refused connection changes nothing, and one that is made changes the connections alone. -/
theorem connect_frame {source target : NodeId} {sourcePin targetPin : String} {a after : Arena}
    {result : Except GraphError Unit}
    (h : (connect source sourcePin target targetPin).run.run a = (result, after)) :
    after.table = a.table ∧ after.order = a.order ∧ after.nextIndex = a.nextIndex ∧
      ∀ error, result = .error error → after = a := by
  have hrefused : ∀ {error}, (.error error, a) = (result, after) →
      after.table = a.table ∧ after.order = a.order ∧ after.nextIndex = a.nextIndex ∧
        ∀ error, result = .error error → after = a := by
    intro error heq
    obtain ⟨rfl, rfl⟩ := Prod.mk.inj heq
    exact ⟨rfl, rfl, rfl, fun _ _ => rfl⟩
  rw [run_connect] at h
  -- Four refusals, by the order of the checks, and then the one way to succeed.
  split at h
  · exact hrefused h
  split at h
  · exact hrefused h
  split at h
  · exact hrefused h
  split at h
  · exact hrefused h
  · obtain ⟨rfl, rfl⟩ := Prod.mk.inj h
    exact ⟨rfl, rfl, rfl, nofun⟩

/-! ## Coupled stores -/

/-- The table and the order of an arena belong together. -/
structure Coupled (a : Arena) : Prop where
  /-- A node is stored under its own identity. -/
  id_eq : ∀ {id : NodeId} {node : Node}, a.node? id = some node → node.id = id
  /-- The listed identities are those under which a node is stored. -/
  mem_order_iff : ∀ {id : NodeId}, id ∈ a.order ↔ (a.node? id).isSome

/-- After a node has been stored under its identity, it is found there, and other identities are
looked up as before. -/
theorem node?_of_insert {a after : Arena} {node : Node}
    (htable : after.table = a.table.insert node.id.index node) (id : NodeId) :
    after.node? id = if node.id = id then some node else a.node? id := by
  simp only [node?, htable, Std.TreeMap.getElem?_insert, Std.LawfulEqCmp.compare_eq_iff_eq,
    NodeId.index_inj]

/-- After an identity has been freed, nothing is found under it, and other identities are looked up
as before. -/
theorem node?_of_erase {a after : Arena} {removed : NodeId}
    (htable : after.table = a.table.erase removed.index) (id : NodeId) :
    after.node? id = if removed = id then none else a.node? id := by
  simp only [node?, htable, Std.TreeMap.getElem?_erase, Std.LawfulEqCmp.compare_eq_iff_eq,
    NodeId.index_inj]

variable {a after : Arena}

/-- Nothing is stored in the beginning. -/
theorem Coupled.empty : Coupled {} where
  id_eq h := by simp [node?] at h
  mem_order_iff := by simp [node?]

/-- A node may be stored under its identity, if that is listed then. -/
theorem Coupled.of_insert {node : Node} (h : a.Coupled)
    (htable : after.table = a.table.insert node.id.index node)
    (horder : ∀ id, id ∈ after.order ↔ node.id = id ∨ id ∈ a.order) : after.Coupled where
  id_eq {id found} hfound := by
    rw [node?_of_insert htable] at hfound
    split at hfound
    next heq => rw [← Option.some.inj hfound, heq]
    next => exact h.id_eq hfound
  mem_order_iff {id} := by
    rw [horder, h.mem_order_iff, node?_of_insert htable]
    split
    next heq => simp [heq]
    next hne => simp [hne]

/-- An identity may be freed, if it is no longer listed then. -/
theorem Coupled.of_erase {removed : NodeId} (h : a.Coupled)
    (htable : after.table = a.table.erase removed.index)
    (horder : ∀ id, id ∈ after.order ↔ removed ≠ id ∧ id ∈ a.order) : after.Coupled where
  id_eq {id found} hfound := by
    rw [node?_of_erase htable] at hfound
    split at hfound
    next => cases hfound
    next => exact h.id_eq hfound
  mem_order_iff {id} := by
    rw [horder, h.mem_order_iff, node?_of_erase htable]
    split
    next heq => simp [heq]
    next hne => simp [hne]

namespace Coupled

variable (h : a.Coupled)

include h

/-- The graph has the listed identities, in their order. -/
theorem ids_graph : a.graph.ids = a.order := by
  have hown : ∀ id ∈ a.order, (a.node? id).map (·.id) = some id := by
    intro id hid
    obtain ⟨node, hnode⟩ := Option.isSome_iff_exists.1 (h.mem_order_iff.1 hid)
    rw [hnode, Option.map_some, h.id_eq hnode]
  change (a.order.filterMap a.node?).map (·.id) = a.order
  rw [List.map_filterMap, List.filterMap_congr hown, List.filterMap_some]

/-- The table finds what a search through the nodes of the graph finds. -/
theorem node?_graph (id : NodeId) : a.graph.node? id = a.node? id := by
  cases hnode : a.node? id with
  | none =>
    rw [← Option.not_isSome_iff_eq_none, Graph.isSome_node?_iff, h.ids_graph, h.mem_order_iff,
      hnode]
    simp
  | some node =>
    have hmem : id ∈ a.graph.ids := by
      rw [h.ids_graph, h.mem_order_iff, hnode]
      rfl
    obtain ⟨found, hfound⟩ := Graph.exists_node?_of_mem_ids hmem
    obtain ⟨hfoundMem, hid⟩ := Graph.node?_eq_some hfound
    -- What the search finds comes from the table, from under its own identity.
    obtain ⟨other, -, hother⟩ := List.mem_filterMap.1 hfoundMem
    obtain rfl : other = id := (h.id_eq hother).symm.trans hid
    rw [hfound, ← hother, hnode]

/-- So a pin has the same kind in the stores as in the graph. -/
theorem pinKind_graph (id : NodeId) (side : Side) (pin : String) :
    a.graph.pinKind id side pin = a.pinKind id side pin := by
  rw [Graph.pinKind, h.node?_graph, pinKind]

end Coupled

/-! ## Operations on the stores and on the graph -/

/-- An operation on the stores does what an operation on the graph gives: it is refused for the same
cause and leaves the stores as they were, or it leaves coupled stores of the new graph. -/
def Refines {α : Type} (a : Arena) (operation : Editing α) (result : Except GraphError Graph) :
    Prop :=
  match operation.run.run a with
  | (.error error, after) => result = .error error ∧ after = a
  | (.ok _, after) => result = .ok after.graph ∧ after.Coupled

/-- Whether or not an operation is refused, the stores are then those of the graph. -/
theorem Refines.graph_eq {α : Type} {operation : Editing α} {result : Except GraphError Graph}
    (hrefines : a.Refines operation result) (h : a.Coupled) :
    (operation.run.run a).2.Coupled ∧
      (operation.run.run a).2.graph = a.graph.orUnchanged result := by
  unfold Refines at hrefines
  split at hrefines
  next error after heq =>
    obtain ⟨rfl, rfl⟩ := hrefines
    rw [heq]
    exact ⟨h, rfl⟩
  next value after heq =>
    obtain ⟨rfl, hafter⟩ := hrefines
    rw [heq]
    exact ⟨hafter, rfl⟩

/-- An operation on the stores takes something away exactly if an operation on the graph does, and
leaves coupled stores of what that leaves. If there is nothing to be taken, nothing is changed. -/
def Takes {α : Type} (a : Arena) (operation : StateM Arena (Option α))
    (result : Option (α × Graph)) : Prop :=
  match operation.run a with
  | (none, after) => result = none ∧ after = a
  | (some taken, after) => result = some (taken, after.graph) ∧ after.Coupled

/-- Whether or not something is taken, the stores are then those of the graph. -/
theorem Takes.graph_eq {α : Type} {operation : StateM Arena (Option α)}
    {result : Option (α × Graph)} (htakes : a.Takes operation result) (h : a.Coupled) :
    (operation.run a).2.Coupled ∧
      (operation.run a).2.graph = (result.map Prod.snd).getD a.graph := by
  unfold Takes at htakes
  split at htakes
  next after heq =>
    obtain ⟨rfl, rfl⟩ := htakes
    rw [heq]
    exact ⟨h, rfl⟩
  next taken after heq =>
    obtain ⟨rfl, hafter⟩ := htakes
    rw [heq]
    exact ⟨hafter, rfl⟩

namespace Coupled

variable (h : a.Coupled)

include h

/-- Placing a node takes an unused number for it. -/
theorem refines_addNode (hbelow : ∀ id ∈ a.order, id.index < a.nextIndex) (tag : String)
    (position : Position) :
    a.Refines (addNode tag position) ((a.graph.addNode tag position).map Prod.snd) := by
  unfold Refines
  rw [run_addNode, Graph.addNode]
  cases Catalog.standard.find? tag with
  | none => exact ⟨rfl, rfl⟩
  | some type =>
    let node := type.newNode ⟨a.nextIndex⟩ position
    let after : Arena := { a with
      table := a.table.insert a.nextIndex node
      order := a.order ++ [node.id]
      nextIndex := a.nextIndex + 1 }
    have htable : after.table = a.table.insert node.id.index node := rfl
    have hfind := node?_of_insert htable
    -- The nodes before the new one are looked up as before.
    have hold : ∀ id ∈ a.order, after.node? id = a.node? id := by
      intro id hid
      rw [hfind, if_neg]
      rintro rfl
      exact UInt32.lt_irrefl _ (hbelow _ hid)
    have hnodes : after.nodes = a.nodes ++ [node] := by
      have hnew : after.node? node.id = some node := (hfind _).trans (if_pos rfl)
      rw [nodes, List.filterMap_append, List.filterMap_congr hold, List.filterMap_cons, hnew]
      rfl
    refine ⟨congrArg Except.ok ?_, h.of_insert htable fun id => ?_⟩
    · change Graph.mk (a.nodes ++ [node]) a.connections (a.nextIndex + 1) = after.graph
      rw [← hnodes]
      rfl
    · rw [List.mem_append, List.mem_singleton, or_comm, eq_comm]
      rfl

/-- Changing a node leaves its identity. -/
theorem refines_editNode (id : NodeId) (change : Node → Node)
    (hid : ∀ node, (change node).id = node.id) :
    a.Refines (editNode id change) (a.graph.editNode id change) := by
  unfold Refines
  rw [run_editNode, Graph.editNode, h.node?_graph]
  cases hnode : a.node? id with
  | none => exact ⟨rfl, rfl⟩
  | some node =>
    -- The node goes back to where it was stored.
    obtain rfl : (change node).id = id := (hid node).trans (h.id_eq hnode)
    let after : Arena := { a with table := a.table.insert (change node).id.index (change node) }
    have htable : after.table = a.table.insert (change node).id.index (change node) := rfl
    have hfind := node?_of_insert htable
    -- In the list the change is made wherever the identity is found, which is in one place.
    have hnodes : after.nodes =
        a.nodes.map fun found => if found.id = (change node).id then change found else found := by
      rw [nodes, nodes, List.map_filterMap]
      refine List.filterMap_congr fun other _ => ?_
      rw [hfind]
      split
      next heq => rw [← heq, hnode, Option.map_some, if_pos (hid node).symm]
      next hne =>
        cases hother : a.node? other with
        | none => rfl
        | some found =>
          rw [Option.map_some, if_neg]
          rw [h.id_eq hother]
          exact Ne.symm hne
    refine ⟨congrArg Except.ok ?_, h.of_insert htable fun other => ?_⟩
    · rw [Graph.modifyNode]
      change Graph.mk (a.nodes.map _) a.connections a.nextIndex = after.graph
      rw [← hnodes]
      rfl
    · refine (or_iff_right_of_imp ?_).symm
      rintro rfl
      rw [h.mem_order_iff, hnode]
      rfl

/-- Connecting changes the connections alone. -/
theorem refines_connect (source : NodeId) (sourcePin : String) (target : NodeId)
    (targetPin : String) :
    a.Refines (connect source sourcePin target targetPin)
      (a.graph.connect source sourcePin target targetPin) := by
  unfold Refines
  rw [run_connect, Graph.connect, h.pinKind_graph, h.pinKind_graph]
  by_cases hself : source = target
  · rw [if_pos hself, if_pos hself]
    exact ⟨rfl, rfl⟩
  · rw [if_neg hself, if_neg hself]
    cases a.pinKind source .output sourcePin with
    | error e => exact ⟨rfl, rfl⟩
    | ok kind =>
      cases a.pinKind target .input targetPin with
      | error e => exact ⟨rfl, rfl⟩
      | ok targetKind =>
        by_cases hkind : kind = targetKind
        · simp only [bind, Except.bind, hkind, ne_eq, not_true_eq_false, ↓reduceIte]
          exact ⟨rfl, ⟨h.id_eq, h.mem_order_iff⟩⟩
        · simp only [bind, Except.bind, hkind, ne_eq, not_false_eq_true, ↓reduceIte]
          exact ⟨rfl, trivial⟩

/-- Removing a node frees its identity in the table and in the order. -/
theorem takes_removeNode? (id : NodeId) :
    a.Takes (removeNode? id) (a.graph.removeNode? id) := by
  unfold Takes
  rw [run_removeNode?, Graph.removeNode?, h.node?_graph]
  cases hnode : a.node? id with
  | none => exact ⟨rfl, rfl⟩
  | some node =>
    let after : Arena := { a with
      table := a.table.erase id.index
      order := a.order.filter (· != id)
      connections := a.connections.filter (!·.touches id) }
    have htable : after.table = a.table.erase id.index := rfl
    -- Of the list of identities the same goes as of the list of nodes.
    have hnodes : after.nodes = a.nodes.filter (·.id != id) := by
      rw [nodes, nodes, List.filter_filterMap, List.filterMap_filter]
      refine List.filterMap_congr fun other _ => ?_
      rw [node?_of_erase htable]
      cases hother : a.node? other with
      | none => simp
      | some found =>
        rw [Option.filter_some, h.id_eq hother]
        by_cases heq : id = other <;> simp [heq]
    refine ⟨congrArg (fun g => some (node, g)) ?_, h.of_erase htable fun other => ?_⟩
    · change Graph.mk (a.nodes.filter _) _ _ = after.graph
      rw [← hnodes]
      rfl
    · rw [List.mem_filter, bne_iff_ne, and_comm, ne_comm]

/-- Disconnecting changes the connections alone. -/
theorem takes_disconnect? (id : NodeId) (pin : String) :
    a.Takes (disconnect? id pin) (a.graph.disconnect? id pin) := by
  unfold Takes
  have hinbound : a.graph.inbound? id pin = a.inbound? id pin := rfl
  rw [run_disconnect?, Graph.disconnect?, hinbound]
  cases a.inbound? id pin with
  | none => exact ⟨rfl, rfl⟩
  | some c => exact ⟨rfl, ⟨h.id_eq, h.mem_order_iff⟩⟩

/-! ## Edits of the stores -/

/-- An edit of coupled stores other than a loading leaves coupled stores, and it does to the graph
that they hold what it does to a graph. -/
theorem perform (hbelow : ∀ id ∈ a.order, id.index < a.nextIndex) {e : Edit}
    (he : e.isLoad = false) : (e.perform a).Coupled ∧ (e.perform a).graph = e.apply a.graph := by
  cases e with
  | add tag position => exact (h.refines_addNode hbelow tag position).graph_eq h
  | remove id => exact (h.takes_removeNode? id).graph_eq h
  -- Four edits change a node in its place, each in its own way.
  | set id name value =>
    exact (h.refines_editNode id (fun node => { node with
      properties := node.properties.insert name value.json }) fun _ => rfl).graph_eq h
  | move id position =>
    exact (h.refines_editNode id (fun node => { node with position }) fun _ => rfl).graph_eq h
  | connect source sourcePin target targetPin =>
    exact (h.refines_connect source sourcePin target targetPin).graph_eq h
  | disconnect id pin => exact (h.takes_disconnect? id pin).graph_eq h
  | retype id tag =>
    exact (h.refines_editNode id (fun node => { node with tag }) fun _ => rfl).graph_eq h
  | rewrite id change =>
    exact (h.refines_editNode id (fun node => { node with
      properties := change node.properties }) fun _ => rfl).graph_eq h
  | load document => cases he

end Coupled

end Arena

end CommandGraph
