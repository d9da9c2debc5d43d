import CommandGraph.Compile.Walk
import CommandGraph.Proofs.Graph.Reachable
import Mathlib.Data.List.Chain
import Mathlib.Logic.Relation

/-!
# The flow of control

Control passes from a node to those that its followed connections enter (`Graph.Passes`). In a
well-formed graph every one of these connections carries control, and control enters a node through
one connection at most. So what lies behind an undriven node is a tree: nobody meets the same node
twice on one way (`Graph.WellFormed.nodup_of_isChain`), and different ways on from a node have no
node in common (`Graph.WellFormed.not_reaches_both`).
-/

namespace CommandGraph

/-! ## Relations in which nothing has two predecessors -/

section LeftUnique

variable {α : Type} {R : α → α → Prop} {root : α}

open Relation

/-- Behind a root there are no cycles. -/
theorem not_transGen_self_of_root (hunique : Relator.LeftUnique R) (hroot : ∀ a, ¬ R a root) {v : α}
    (hv : ReflTransGen R root v) : ¬ TransGen R v v := by
  induction hv with
  | refl =>
    intro hcycle
    obtain ⟨last, -, hlast⟩ := TransGen.tail'_iff.1 hcycle
    exact hroot last hlast
  | @tail u v _ huv ih =>
    intro hcycle
    -- The cycle comes back to `v` through its one predecessor, so it is also one through `u`.
    obtain ⟨last, hback, hlast⟩ := TransGen.tail'_iff.1 hcycle
    obtain rfl : last = u := hunique hlast huv
    exact ih (TransGen.head' huv hback)

/-- Whatever lies on a way from a root is reached from it. -/
theorem reflTransGen_of_mem_isChain {path : List α} (hpath : List.IsChain R (root :: path)) {v : α}
    (hv : v ∈ root :: path) : ReflTransGen R root v := by
  have hpairs := (hpath.imp fun {a b} hab => TransGen.single hab).pairwise
  rcases List.mem_cons.1 hv with rfl | hv
  · exact .refl
  · exact ((List.pairwise_cons.1 hpairs).1 v hv).to_reflTransGen

/-- No way from a root meets the same twice. -/
theorem nodup_of_isChain_root (hunique : Relator.LeftUnique R) (hroot : ∀ a, ¬ R a root)
    {path : List α} (hpath : List.IsChain R (root :: path)) : (root :: path).Nodup := by
  have hpairs := (hpath.imp fun {a b} hab => TransGen.single hab).pairwise
  refine hpairs.imp_of_mem fun {a b} ha _ hab heq => ?_
  rw [← heq] at hab
  exact not_transGen_self_of_root hunique hroot (reflTransGen_of_mem_isChain hpath ha) hab

/-- Two different successors of a place behind a root reach nothing in common. -/
theorem not_reflTransGen_both (hunique : Relator.LeftUnique R) (hroot : ∀ a, ¬ R a root)
    {u a b v : α} (hu : ReflTransGen R root u) (ha : R u a) (hb : R u b) (hne : a ≠ b)
    (hav : ReflTransGen R a v) (hbv : ReflTransGen R b v) : False := by
  have hacyclic := not_transGen_self_of_root hunique hroot hu
  -- Going back from `v` one meets both successors, so one of them lies behind the other.
  have hback : ∀ {x y : α}, R u x → R u y → x ≠ y → ReflTransGen R x y → False := by
    intro x y hx hy hxy hreach
    rcases ReflTransGen.cases_tail hreach with heq | ⟨last, hlast, hlasty⟩
    · exact hxy heq.symm
    · obtain rfl : last = u := hunique hlasty hy
      exact hacyclic (TransGen.head' hx hlast)
  have hswap : Relator.RightUnique (Function.swap R) := fun _ _ _ h h' => hunique h h'
  rcases ReflTransGen.total_of_right_unique hswap (reflTransGen_swap.2 hav)
    (reflTransGen_swap.2 hbv) with h | h
  · exact hback hb ha hne.symm (reflTransGen_swap.1 h)
  · exact hback ha hb hne (reflTransGen_swap.1 h)

end LeftUnique

/-! ## Followed connections -/

namespace Graph

/-- The first connection that leaves an output pin. -/
def outgoing? (g : Graph) (id : NodeId) (pin : String) : Option Connection :=
  g.connections.find? (·.leaves id pin)

/-- The first connection through which control leaves a node. -/
def nextExec? (g : Graph) (id : NodeId) : Option Connection :=
  g.connections.find? fun c => c.source == id && c.isExec

/-- The connections that are followed from a node, in order. -/
def followed (g : Graph) (node : Node) : List Connection :=
  match node.role with
  | .loop => ["Loop Body", "Completed"].filterMap (g.outgoing? node.id)
  | .condition => ["True", "False"].filterMap (g.outgoing? node.id)
  | .sequence => ["Then 0", "Then 1", "Then 2"].filterMap (g.outgoing? node.id)
  | .plain => (g.nextExec? node.id).toList

/-- The nodes of an entry type that nothing drives, in the order in which they were placed. -/
def entries (g : Graph) : List NodeId :=
  (g.nodes.filter fun node => node.type?.any (·.entry) && !g.hasInboundExec node.id).map (·.id)

/-- Control passes from one node to another. -/
def Passes (g : Graph) (id next : NodeId) : Prop :=
  ∃ node, g.node? id = some node ∧ ∃ c ∈ g.followed node, c.target = next

variable {g : Graph} {id : NodeId} {node : Node} {c : Connection}

/-- What feeds a pin is a connection of the graph that enters it. -/
theorem inbound?_eq_some {pin : String} (h : g.inbound? id pin = some c) :
    c ∈ g.connections ∧ c.target = id ∧ c.targetPin = pin :=
  ⟨List.mem_of_find?_eq_some h, by simpa [Connection.enters] using List.find?_some h⟩

/-- What leaves a pin first is a connection of the graph that leaves it. -/
theorem outgoing?_eq_some {pin : String} (h : g.outgoing? id pin = some c) :
    c ∈ g.connections ∧ c.source = id ∧ c.sourcePin = pin :=
  ⟨List.mem_of_find?_eq_some h, by simpa [Connection.leaves] using List.find?_some h⟩

/-- What carries control away first is a connection of the graph that does. -/
theorem nextExec?_eq_some (h : g.nextExec? id = some c) :
    c ∈ g.connections ∧ c.source = id ∧ c.kind = .exec :=
  ⟨List.mem_of_find?_eq_some h,
    by simpa [Connection.isExec, PinKind.isExec] using List.find?_some h⟩

/-- A followed connection leaves the node and carries control. -/
theorem WellFormed.of_mem_followed (h : g.WellFormed) (hc : c ∈ g.followed node) :
    c ∈ g.connections ∧ c.source = node.id ∧ c.kind = .exec := by
  have hpins : ∀ pins : List String, (∀ pin ∈ pins, pin ∈ Catalog.controlOutputs) →
      c ∈ pins.filterMap (g.outgoing? node.id) →
      c ∈ g.connections ∧ c.source = node.id ∧ c.kind = .exec := by
    intro pins hpins hc
    obtain ⟨pin, hpin, hout⟩ := List.mem_filterMap.1 hc
    obtain ⟨hmem, hsource, rfl⟩ := outgoing?_eq_some hout
    exact ⟨hmem, hsource, (h.exec_iff_source c hmem).2 (hpins _ hpin)⟩
  unfold followed at hc
  split at hc
  · exact hpins _ (by decide) hc
  · exact hpins _ (by decide) hc
  · exact hpins _ (by decide) hc
  · exact nextExec?_eq_some (Option.mem_toList.1 hc)

/-- Connections found at different pins are different. -/
theorem nodup_filterMap_outgoing? {pins : List String} (hpins : pins.Nodup) (id : NodeId) :
    (pins.filterMap (g.outgoing? id)).Nodup := by
  refine hpins.filterMap fun p q c hp hq => ?_
  exact (outgoing?_eq_some hp).2.2.symm.trans (outgoing?_eq_some hq).2.2

/-- No connection is followed twice from a node. -/
theorem nodup_followed (g : Graph) (node : Node) : (g.followed node).Nodup := by
  unfold followed
  split
  · exact nodup_filterMap_outgoing? (by decide) _
  · exact nodup_filterMap_outgoing? (by decide) _
  · exact nodup_filterMap_outgoing? (by decide) _
  · cases g.nextExec? node.id <;> simp

namespace WellFormed

/-- Connections that are followed from a node lead to different nodes. -/
theorem nodup_targets (h : g.WellFormed) (node : Node) :
    ((g.followed node).map (·.target)).Nodup := by
  refine (List.nodup_map_iff_inj_on (g.nodup_followed node)).2 ?_
  intro c hc d hd htarget
  obtain ⟨hcmem, -, hcexec⟩ := h.of_mem_followed hc
  obtain ⟨hdmem, -, hdexec⟩ := h.of_mem_followed hd
  exact h.exec_connection_eq hcmem hdmem hcexec hdexec htarget

/-- Where control passes, a connection carries it. -/
theorem exec_of_passes (h : g.WellFormed) {next : NodeId} (hp : g.Passes id next) :
    ∃ c ∈ g.connections, c.source = id ∧ c.target = next ∧ c.kind = .exec := by
  obtain ⟨node, hnode, c, hc, rfl⟩ := hp
  obtain ⟨hmem, hsource, hexec⟩ := h.of_mem_followed hc
  exact ⟨c, hmem, hsource.trans (node?_eq_some hnode).2, rfl, hexec⟩

/-- Control comes to a node from one node at most. -/
theorem passes_leftUnique (h : g.WellFormed) : Relator.LeftUnique g.Passes := by
  intro a b next ha hb
  obtain ⟨c, hc, rfl, hct, hcexec⟩ := h.exec_of_passes ha
  obtain ⟨d, hd, rfl, hdt, hdexec⟩ := h.exec_of_passes hb
  rw [h.exec_connection_eq hc hd hcexec hdexec (hct.trans hdt.symm)]

/-- Control does not pass to a node that nothing drives. -/
theorem not_passes_of_undriven (h : g.WellFormed) (hentry : g.hasInboundExec id = false)
    (other : NodeId) : ¬ g.Passes other id := by
  intro hp
  obtain ⟨c, hc, -, rfl, hexec⟩ := h.exec_of_passes hp
  have hnone := List.any_eq_false.1 hentry c hc
  simp [Connection.isExec, PinKind.isExec, hexec] at hnone

/-- Control passes only to nodes that are there. -/
theorem mem_ids_of_passes (h : g.WellFormed) {next : NodeId} (hp : g.Passes id next) :
    next ∈ g.ids := by
  obtain ⟨c, hc, -, rfl, -⟩ := h.exec_of_passes hp
  exact (h.ends_mem c hc).2

/-- No way from an undriven node meets a node twice, so it is no longer than the graph has nodes. -/
theorem nodup_of_isChain (h : g.WellFormed) {entry : NodeId} (hmem : entry ∈ g.ids)
    (hentry : g.hasInboundExec entry = false) {path : List NodeId}
    (hpath : List.IsChain g.Passes (entry :: path)) :
    (entry :: path).Nodup ∧ (entry :: path).length ≤ g.size := by
  have hnodup := nodup_of_isChain_root h.passes_leftUnique (h.not_passes_of_undriven hentry) hpath
  refine ⟨hnodup, ?_⟩
  -- No longer than the list of identities, of which it holds each at most once.
  rw [← length_ids]
  refine hnodup.length_le_of_subset fun v hv => ?_
  have hreach := reflTransGen_of_mem_isChain hpath hv
  rcases Relation.ReflTransGen.cases_tail hreach with rfl | ⟨u, -, hu⟩
  · exact hmem
  · exact h.mem_ids_of_passes hu

/-- Two ways on from a node behind an undriven node have no node in common. -/
theorem not_reaches_both (h : g.WellFormed) {entry : NodeId}
    (hentry : g.hasInboundExec entry = false) {a b v : NodeId}
    (hid : Relation.ReflTransGen g.Passes entry id) (ha : g.Passes id a) (hb : g.Passes id b)
    (hne : a ≠ b) (hav : Relation.ReflTransGen g.Passes a v) :
    ¬ Relation.ReflTransGen g.Passes b v :=
  not_reflTransGen_both h.passes_leftUnique (h.not_passes_of_undriven hentry) hid ha hb hne hav

end WellFormed

end Graph

/-! ## The walk takes the followed connections -/

/-- The way on behind a connection, if there is one. -/
def Branch.behind (lead : List Event) (c : Option Connection) : List Branch :=
  (c.map fun c => { lead, target := c.target }).toList

/-- The way on behind a connection leads to its target. -/
theorem Branch.map_target_behind (lead : List Event) (c : Option Connection) :
    (behind lead c).map (·.target) = c.toList.map (·.target) := by
  cases c <;> rfl

/-- The way into the body of a loop, if the node is one and has a body. -/
def Resolver.bodyBranches (r : Resolver) (node : Node) : List Branch :=
  match node.role with
  | .loop => (r.body? node).toList.map ({ target := · })
  | _ => []

/-- A node that goes through its branches in turn is of the sequence type. -/
theorem Node.tag_of_role_sequence {node : Node} (h : node.role = .sequence) :
    node.tag = "sequence" := by
  unfold role at h
  split at h <;> simp_all

namespace Compiler

variable (compiler : Compiler) (g : Graph) {node : Node}

/-- The resolver is about the graph. -/
theorem resolver_graph : (compiler.resolver g).graph = g :=
  rfl

/-- The resolver finds the connection into an input pin in the graph. -/
theorem resolver_inbound? (id : NodeId) (pin : String) :
    (compiler.resolver g).wiring.inbound? id pin = g.inbound? id pin :=
  Wiring.inbound?_ofConnections g.connections id pin

/-- The resolver finds the connections from an output pin in the graph. -/
theorem resolver_outgoing? (id : NodeId) (pin : String) :
    (compiler.resolver g).wiring.outgoing? id pin = g.outgoing? id pin :=
  Wiring.outgoing?_ofConnections g.connections id pin

/-- The resolver finds the connections that carry control away in the graph. -/
theorem resolver_nextExec? (id : NodeId) :
    (compiler.resolver g).wiring.nextExec? id = g.nextExec? id :=
  Wiring.nextExec?_ofConnections g.connections id

/-- The resolver sees in the graph whether control enters a node. -/
theorem resolver_hasInboundExec (id : NodeId) :
    (compiler.resolver g).wiring.hasInboundExec id = g.hasInboundExec id :=
  Wiring.hasInboundExec_ofConnections g.connections id

/-- After its rounds a loop goes on behind one pin. -/
theorem branches_loop (h : node.role = .loop) : (compiler.resolver g).branches node =
    Branch.behind [] (g.outgoing? node.id "Completed") := by
  simp only [Resolver.branches, h, resolver_outgoing?]
  rfl

/-- A condition goes on behind two pins, with a comment each. -/
theorem branches_condition (h : node.role = .condition) : (compiler.resolver g).branches node =
    Branch.behind [.thenBranch node.id (node.propertyText "conditionType")
        ((compiler.resolver g).resolve node.id "Condition")] (g.outgoing? node.id "True") ++
      Branch.behind [.elseBranch node.id] (g.outgoing? node.id "False") := by
  simp only [Resolver.branches, h, resolver_outgoing?]
  rfl

/-- A sequence goes on behind three pins. -/
theorem branches_sequence (h : node.role = .sequence) : (compiler.resolver g).branches node =
    ["Then 0", "Then 1", "Then 2"].flatMap fun pin =>
      Branch.behind [] (g.outgoing? node.id pin) := by
  have hpins : ((Catalog.standard.find? "sequence").map NodeType.execOutputs).getD [] =
      ["Then 0", "Then 1", "Then 2"].map fun name => { name, kind := .exec } := by decide
  simp only [Resolver.branches, h, resolver_outgoing?, Node.type?, Node.tag_of_role_sequence h,
    hpins, List.flatMap_map]
  rfl

/-- The way into the body of a loop is behind one pin. -/
theorem bodyBranches_loop (h : node.role = .loop) : (compiler.resolver g).bodyBranches node =
    Branch.behind [] (g.outgoing? node.id "Loop Body") := by
  simp only [Resolver.bodyBranches, h, Resolver.body?, resolver_outgoing?]
  cases g.outgoing? node.id "Loop Body" <;> rfl

/-- Any other node goes on behind its first connection. -/
theorem branches_plain (h : node.role = .plain) : (compiler.resolver g).branches node =
    Branch.behind [] (g.nextExec? node.id) := by
  simp only [Resolver.branches, h, resolver_nextExec?]
  rfl

/-- The followed connections lead into the body of a loop and along the ways on, in order. -/
theorem targets_followed (node : Node) : (g.followed node).map (·.target) =
    ((compiler.resolver g).bodyBranches node ++ (compiler.resolver g).branches node).map
      (·.target) := by
  rw [List.map_append]
  cases hrole : node.role with
  | loop =>
    rw [bodyBranches_loop compiler g hrole, branches_loop compiler g hrole]
    simp [Graph.followed, hrole, Branch.map_target_behind, List.filterMap_eq_flatMap_toList]
  | condition =>
    rw [branches_condition compiler g hrole]
    simp [Graph.followed, hrole, Resolver.bodyBranches, Branch.map_target_behind,
      List.filterMap_eq_flatMap_toList]
  | sequence =>
    rw [branches_sequence compiler g hrole]
    simp [Graph.followed, hrole, Resolver.bodyBranches, Branch.map_target_behind,
      List.filterMap_eq_flatMap_toList]
  | plain =>
    rw [branches_plain compiler g hrole]
    simp [Graph.followed, hrole, Resolver.bodyBranches, Branch.map_target_behind]

/-- The ways on lead along followed connections, in order. A loop also follows its body, which is
none of its ways on. -/
theorem targets_branches_sublist (node : Node) :
    (((compiler.resolver g).branches node).map (·.target)).Sublist
      ((g.followed node).map (·.target)) := by
  rw [targets_followed compiler g, List.map_append]
  exact List.sublist_append_right _ _

/-- Every way on is behind a followed connection. -/
theorem exists_followed_of_mem_branches {branch : Branch}
    (h : branch ∈ (compiler.resolver g).branches node) :
    ∃ c ∈ g.followed node, c.target = branch.target := by
  have hmem := (compiler.targets_branches_sublist g node).subset (List.mem_map_of_mem h)
  exact List.mem_map.1 hmem

/-- A loop's body is behind a followed connection. -/
theorem exists_followed_of_body? {start : NodeId} (hrole : node.role = .loop)
    (h : (compiler.resolver g).body? node = some start) :
    ∃ c ∈ g.followed node, c.target = start := by
  rw [Resolver.body?, resolver_outgoing?, Option.map_eq_some_iff] at h
  obtain ⟨c, hc, rfl⟩ := h
  exact ⟨c, by simp [Graph.followed, hrole, hc], rfl⟩

/-- Compilation starts at the entries of the graph. -/
theorem resolver_entries : (compiler.resolver g).entries = g.entries := by
  simp only [Resolver.entries, resolver_hasInboundExec]
  rfl

end Compiler

/-- Entries are there, and nothing drives them. -/
theorem Graph.undriven_of_mem_entries {g : Graph} {id : NodeId} (h : id ∈ g.entries) :
    id ∈ g.ids ∧ g.hasInboundExec id = false := by
  obtain ⟨node, hnode, rfl⟩ := List.mem_map.1 h
  obtain ⟨hmem, hentry⟩ := List.mem_filter.1 hnode
  simp only [Bool.and_eq_true, Bool.not_eq_true'] at hentry
  exact ⟨List.mem_map_of_mem hmem, hentry.2⟩

end CommandGraph
